import Promptwright.Identifiers
import Promptwright.Json.Number
import Promptwright.Proofs.Script.Skeleton

/-!
# Texts that are code

Numbers and identifiers are words: they are written without quotes and slashes, so that in a
script they are code and nothing else, and without brackets and semicolons, so that they do not
change its structure either.

## Key results

- `wordText_number`, `wordText_positional`: numbers
- `wordText_camel`, `wordText_upperFirst`: identifiers
- `WordText.codeText`: words are code
-/

namespace Promptwright.Script

/-- Two texts of code make one. -/
theorem CodeText.append {t u : String} (h : CodeText t) (h' : CodeText u) : CodeText (t ++ u) := by
  intro c hc
  rw [String.toList_append] at hc
  obtain hc | hc := List.mem_append.mp hc
  · exact h c hc
  · exact h' c hc

/-- Characters of code make a text of code. -/
theorem codeText_ofList {cs : List Char} (h : ∀ c ∈ cs, isCode c = true) :
    CodeText (String.ofList cs) := by
  intro c hc
  rw [String.toList_ofList] at hc
  exact h c hc

/-! ## Words -/

/-- Whether a character may stand in a number or an identifier. -/
def isWord (c : Char) : Bool := c.isAlphanum || c == '.' || c == '-' || c == '+'

/-- A text that consists of such characters. -/
def WordText (t : String) : Prop := ∀ c ∈ t.toList, isWord c = true

-- looks at the characters of the text only, not at all characters there are
instance (t : String) : Decidable (WordText t) :=
  decidable_of_iff (t.toList.all isWord = true) List.all_eq_true

/-- Two words make one. -/
theorem WordText.append {t u : String} (h : WordText t) (h' : WordText u) : WordText (t ++ u) := by
  intro c hc
  rw [String.toList_append] at hc
  obtain hc | hc := List.mem_append.mp hc
  · exact h c hc
  · exact h' c hc

/-- Characters of words make a word. -/
theorem wordText_ofList {cs : List Char} (h : ∀ c ∈ cs, isWord c = true) :
    WordText (String.ofList cs) := by
  intro c hc
  rw [String.toList_ofList] at hc
  exact h c hc

/-- A character that stands in words is none of those that do not. -/
theorem ne_of_isWord {c d : Char} (h : isWord c = true) (hd : isWord d = false) : c ≠ d := by
  rintro rfl
  rw [h] at hd
  contradiction

/-- Characters of words are code. -/
theorem isCode_of_isWord {c : Char} (h : isWord c = true) : isCode c = true := by
  simp only [isCode, Bool.and_eq_true, bne_iff_ne]
  exact ⟨⟨⟨ne_of_isWord h (by decide), ne_of_isWord h (by decide)⟩, ne_of_isWord h (by decide)⟩,
    ne_of_isWord h (by decide)⟩

/-- Words are code. -/
theorem WordText.codeText {t : String} (h : WordText t) : CodeText t :=
  fun c hc => isCode_of_isWord (h c hc)

/-- Letters and digits stand in words. -/
theorem isWord_of_isAlphanum {c : Char} (h : c.isAlphanum = true) : isWord c = true := by
  simp [isWord, h]

/-- Digits stand in words. -/
theorem isWord_of_isDigit {c : Char} (h : c.isDigit = true) : isWord c = true :=
  isWord_of_isAlphanum (by rw [Char.isAlphanum, h, Bool.or_true])

/-! ## Letters -/

/-- Letters and digits are ASCII characters. -/
theorem toNat_lt_of_isAlphanum {c : Char} (h : c.isAlphanum = true) : c.toNat < 128 := by
  change (decide (c.val ≥ 'A'.val ∧ c.val ≤ 'Z'.val) ||
    (decide (c.val ≥ 'a'.val) && decide (c.val ≤ 'z'.val)) ||
    (decide (c.val ≥ '0'.val) && decide (c.val ≤ '9'.val))) = true at h
  simp only [Bool.or_eq_true, Bool.and_eq_true, decide_eq_true_eq, UInt32.le_iff_toNat_le,
    ge_iff_le] at h
  have hval : c.toNat = c.val.toNat := rfl
  have hupper : 'Z'.val.toNat = 90 := rfl
  have hlower : 'z'.val.toNat = 122 := rfl
  have hdigit : '9'.val.toNat = 57 := rfl
  omega

/-- A letter or digit in lower case is one. -/
theorem isAlphanum_toLower {c : Char} (h : c.isAlphanum = true) : c.toLower.isAlphanum = true := by
  have hall : ∀ n : Fin 128, (Char.ofNat n).isAlphanum = true →
      (Char.ofNat n).toLower.isAlphanum = true := by decide
  have hc := hall ⟨c.toNat, toNat_lt_of_isAlphanum h⟩
  simp only [Char.ofNat_toNat] at hc
  exact hc h

/-- A letter or digit in upper case is one. -/
theorem isAlphanum_toUpper {c : Char} (h : c.isAlphanum = true) : c.toUpper.isAlphanum = true := by
  have hall : ∀ n : Fin 128, (Char.ofNat n).isAlphanum = true →
      (Char.ofNat n).toUpper.isAlphanum = true := by decide
  have hc := hall ⟨c.toNat, toNat_lt_of_isAlphanum h⟩
  simp only [Char.ofNat_toNat] at hc
  exact hc h

/-- Only letters have a form in upper case. -/
theorem isAlphanum_or_toUpper_eq (c : Char) : c.isAlphanum = true ∨ c.toUpper = c := by
  by_cases hc : 'a'.val ≤ c.val ∧ c.val ≤ 'z'.val
  · refine .inl (Bool.or_eq_true_iff.mpr (.inl (Bool.or_eq_true_iff.mpr (.inr ?_))))
    exact Bool.and_eq_true_iff.mpr ⟨decide_eq_true hc.1, decide_eq_true hc.2⟩
  · exact .inr (dif_neg hc)

/-- A character of a word in upper case stands in words. -/
theorem isWord_toUpper {c : Char} (h : isWord c = true) : isWord c.toUpper = true := by
  obtain hc | hc := isAlphanum_or_toUpper_eq c
  · exact isWord_of_isAlphanum (isAlphanum_toUpper hc)
  · rwa [hc]

/-- A character of code in upper case is code. -/
theorem isCode_toUpper {c : Char} (h : isCode c = true) : isCode c.toUpper = true := by
  obtain hc | hc := isAlphanum_or_toUpper_eq c
  · exact isCode_of_isWord (isWord_of_isAlphanum (isAlphanum_toUpper hc))
  · rwa [hc]

/-! ## Numbers -/

/-- Whether a character may stand in a number that is written with digits. -/
def isNumeral (c : Char) : Bool := c.isDigit || c == '.' || c == 'e' || c == '-' || c == '+'

/-- A text that consists of such characters. -/
def NumeralText (t : String) : Prop := ∀ c ∈ t.toList, isNumeral c = true

-- looks at the characters of the text only, not at all characters there are
instance (t : String) : Decidable (NumeralText t) :=
  decidable_of_iff (t.toList.all isNumeral = true) List.all_eq_true

/-- Two numerals make one text of that kind. -/
theorem NumeralText.append {t u : String} (h : NumeralText t) (h' : NumeralText u) :
    NumeralText (t ++ u) := by
  intro c hc
  rw [String.toList_append] at hc
  obtain hc | hc := List.mem_append.mp hc
  · exact h c hc
  · exact h' c hc

/-- Characters of numbers make a text of that kind. -/
theorem numeralText_ofList {cs : List Char} (h : ∀ c ∈ cs, isNumeral c = true) :
    NumeralText (String.ofList cs) := by
  intro c hc
  rw [String.toList_ofList] at hc
  exact h c hc

/-- Characters of numbers stand in words. -/
theorem isWord_of_isNumeral {c : Char} (h : isNumeral c = true) : isWord c = true := by
  simp only [isNumeral, Bool.or_eq_true, beq_iff_eq] at h
  obtain (((h | rfl) | rfl) | rfl) | rfl := h
  · exact isWord_of_isDigit h
  all_goals decide

/-- Numbers that are written with digits are words. -/
theorem NumeralText.wordText {t : String} (h : NumeralText t) : WordText t :=
  fun c hc => isWord_of_isNumeral (h c hc)

/-- Digits stand in numbers. -/
theorem isNumeral_of_isDigit {c : Char} (h : c.isDigit = true) : isNumeral c = true := by
  simp [isNumeral, h]

/-- The digits of a natural number. -/
theorem isNumeral_of_mem_toDigits {n : Nat} {c : Char} (h : c ∈ Nat.toDigits 10 n) :
    isNumeral c = true :=
  isNumeral_of_isDigit (Nat.isDigit_of_mem_toDigits (by decide) (by decide) h)

/-- A natural number is written with digits. -/
theorem numeralText_nat (n : Nat) : NumeralText (toString n) := by
  rw [Nat.toString_eq_ofList_toDigits]
  exact numeralText_ofList fun c hc => isNumeral_of_mem_toDigits hc

/-- An integer is written with digits. -/
theorem numeralText_int (n : Int) : NumeralText (toString n) := by
  rw [Int.toString_eq_repr, Int.repr_eq_if]
  split
  · exact numeralText_nat _
  · exact .append (by decide) (numeralText_nat _)

/-- A decimal written out in full. -/
theorem isNumeral_of_mem_positional {d : Decimal} {fraction : List Char}
    (hf : ∀ c ∈ fraction, isNumeral c = true) {c : Char} (h : c ∈ d.positional fraction) :
    isNumeral c = true := by
  have hd : ∀ c ∈ d.numerals, isNumeral c = true := fun c hc => isNumeral_of_mem_toDigits hc
  have hz : ∀ n, ∀ c ∈ List.replicate n '0', isNumeral c = true := fun n c hc => by
    rw [List.eq_of_mem_replicate hc]
    decide
  -- zeros behind the digits, a point between them, or zeros in front of them
  rw [Decimal.positional] at h
  split at h
  · obtain h | h := List.mem_append.mp h
    · obtain h | h := List.mem_append.mp h
      · exact hd c h
      · exact hz _ c h
    · exact hf c h
  split at h
  · obtain h | h := List.mem_append.mp h
    · exact hd c (List.mem_of_mem_take h)
    · obtain rfl | h := List.mem_cons.mp h
      · decide
      · exact hd c (List.mem_of_mem_drop h)
  · obtain h | h := List.mem_append.mp h
    · obtain rfl | h := List.mem_cons.mp h
      · decide
      obtain rfl | h := List.mem_cons.mp h
      · decide
      · exact hz _ c h
    · exact hd c h

/-- A floating number is written with digits, or it is one of three words. -/
theorem positional_cases {fraction : String} (hf : NumeralText fraction) (x : Binary64) :
    x.positional fraction ∈ ["NaN", "-inf", "inf"] ∨ NumeralText (x.positional fraction) := by
  cases x with
  | nan => exact .inl (by decide : "NaN" ∈ ["NaN", "-inf", "inf"])
  | infinite negative =>
    cases negative with
    | true => exact .inl (by decide : "-inf" ∈ ["NaN", "-inf", "inf"])
    | false => exact .inl (by decide : "inf" ∈ ["NaN", "-inf", "inf"])
  | finite negative m e =>
    have htext :
        NumeralText (String.ofList ((Binary64.shortest .up m e).positional fraction.toList)) :=
      numeralText_ofList fun c hc => isNumeral_of_mem_positional hf hc
    cases negative with
    | true => exact .inr (.append (by decide) htext)
    | false => exact .inr htext

/-- A decimal as JSON writes it. -/
theorem isNumeral_of_mem_layout {d : Decimal} {c : Char} (h : c ∈ Json.Number.layout d) :
    isNumeral c = true := by
  have hd : ∀ c ∈ d.numerals, isNumeral c = true := fun c hc => isNumeral_of_mem_toDigits hc
  rw [Json.Number.layout] at h
  split at h
  · exact isNumeral_of_mem_positional (List.all_eq_true.mp (by decide)) h
  -- the mantissa, with a point in it or without, and the exponent
  obtain h | h := List.mem_append.mp h
  · split at h
    next => cases h
    next n hn => exact hd c (hn ▸ h)
    next n ns _ hn =>
      rw [hn] at hd
      obtain rfl | h := List.mem_cons.mp h
      · exact hd _ List.mem_cons_self
      obtain rfl | h := List.mem_cons.mp h
      · decide
      · exact hd c (List.mem_cons_of_mem _ h)
  · obtain rfl | h := List.mem_cons.mp h
    · decide
    obtain rfl | h := List.mem_cons.mp h
    · split <;> decide
    · exact isNumeral_of_mem_toDigits h

/-- The number of a JSON text is written with digits, or it is null. -/
theorem number_cases (n : Json.Number) : n.text = "null" ∨ NumeralText n.text := by
  cases n with
  | integer n => exact .inr (numeralText_int n)
  | float x =>
    cases x with
    | nan => exact .inl rfl
    | infinite _ => exact .inl rfl
    | finite negative m e =>
      have htext : NumeralText (if m = 0 then "0.0"
          else String.ofList (Json.Number.layout (Binary64.shortest .even m e))) := by
        split
        · decide
        · exact numeralText_ofList fun c hc => isNumeral_of_mem_layout hc
      cases negative with
      | true => exact .inr (.append (by decide) htext)
      | false => exact .inr htext

/-- A natural number is a word. -/
theorem wordText_nat (n : Nat) : WordText (toString n) := (numeralText_nat n).wordText

/-- A floating number is a word. -/
theorem wordText_positional {fraction : String} (hf : NumeralText fraction) (x : Binary64) :
    WordText (x.positional fraction) := by
  obtain h | h := positional_cases hf x
  · have hall : ∀ t ∈ ["NaN", "-inf", "inf"], WordText t := by decide
    exact hall _ h
  · exact h.wordText

/-- The number of a JSON text is a word. -/
theorem wordText_number (n : Json.Number) : WordText n.text := by
  obtain h | h := number_cases n
  · rw [h]
    decide
  · exact h.wordText

/-! ## Identifiers -/

open Identifiers

/-- A character in front of the first piece adds nothing else. -/
theorem mem_consHead {b : Char} {ws : List (List Char)} {w : List Char} {c : Char}
    (hw : w ∈ Text.consHead b ws) (hc : c ∈ w) : c = b ∨ ∃ v ∈ ws, c ∈ v := by
  cases ws with
  | nil =>
    rw [List.mem_singleton.mp hw] at hc
    exact .inl (List.mem_singleton.mp hc)
  | cons v vs =>
    obtain rfl | hw := List.mem_cons.mp hw
    · obtain rfl | hc := List.mem_cons.mp hc
      · exact .inl rfl
      · exact .inr ⟨v, List.mem_cons_self, hc⟩
    · exact .inr ⟨w, List.mem_cons_of_mem _ hw, hc⟩

/-- Words are made of characters of the text that are not white space. -/
theorem mem_of_mem_words {cs w : List Char} {c : Char} (hw : w ∈ Text.words cs) (hc : c ∈ w) :
    c ∈ cs ∧ Text.isBlank c = false := by
  -- a blank ends the word in front of it, and any other character goes to the word that it touches
  induction cs using Text.words.induct generalizing w with
  | case1 => cases hw
  | case2 d hd =>
    rw [Text.words, if_pos hd] at hw
    cases hw
  | case3 d hd =>
    rw [Text.words, if_neg hd] at hw
    rw [List.mem_singleton.mp hw] at hc
    rw [List.mem_singleton.mp hc]
    exact ⟨List.mem_cons_self, Bool.eq_false_iff.mpr hd⟩
  | case4 d e cs hd ih =>
    rw [Text.words, if_pos hd] at hw
    obtain ⟨hmem, hblank⟩ := ih hw hc
    exact ⟨List.mem_cons_of_mem _ hmem, hblank⟩
  | case5 d e cs hd he ih =>
    rw [Text.words, if_neg hd, if_pos he] at hw
    obtain rfl | hw := List.mem_cons.mp hw
    · rw [List.mem_singleton.mp hc]
      exact ⟨List.mem_cons_self, Bool.eq_false_iff.mpr hd⟩
    · obtain ⟨hmem, hblank⟩ := ih hw hc
      exact ⟨List.mem_cons_of_mem _ hmem, hblank⟩
  | case6 d e cs hd he ih =>
    rw [Text.words, if_neg hd, if_neg he] at hw
    obtain rfl | ⟨v, hv, hc⟩ := mem_consHead hw hc
    · exact ⟨List.mem_cons_self, Bool.eq_false_iff.mpr hd⟩
    · obtain ⟨hmem, hblank⟩ := ih hv hc
      exact ⟨List.mem_cons_of_mem _ hmem, hblank⟩

/-- Humps are made of the characters of the word. -/
theorem mem_of_mem_humps {cs w : List Char} {c : Char} (hw : w ∈ humps cs) (hc : c ∈ w) :
    c ∈ cs := by
  induction cs using humps.induct generalizing w with
  | case1 => cases hw
  | case2 d => rwa [List.mem_singleton.mp hw] at hc
  | case3 b d cs hhump ih =>
    rw [humps, if_pos hhump] at hw
    obtain rfl | hw := List.mem_cons.mp hw
    · rw [List.mem_singleton.mp hc]
      exact List.mem_cons_self
    · exact List.mem_cons_of_mem _ (ih hw hc)
  | case4 b d cs hhump ih =>
    rw [humps, if_neg hhump] at hw
    obtain rfl | ⟨v, hv, hc⟩ := mem_consHead hw hc
    · exact List.mem_cons_self
    · exact List.mem_cons_of_mem _ (ih hv hc)

/-- The words of a label are letters and digits. -/
theorem isAlphanum_of_mem_words {label w : List Char} {c : Char} (hw : w ∈ words label)
    (hc : c ∈ w) : c.isAlphanum = true := by
  obtain ⟨v, hv, rfl⟩ := List.mem_map.mp hw
  obtain ⟨d, hd, rfl⟩ := List.mem_map.mp hc
  obtain ⟨chunk, hchunk, hv⟩ := List.mem_flatMap.mp hv
  obtain ⟨hkeep, hblank⟩ := mem_of_mem_words hchunk (mem_of_mem_humps hv hd)
  have hkept := (List.mem_filter.mp hkeep).2
  rw [hblank, Bool.or_false] at hkept
  exact isAlphanum_toLower hkept

/-- A text that starts in upper case has only characters of a kind if the text has, and if letters
in upper case are of that kind. -/
theorem forall_mem_upperFirst {P : Char → Prop} (hP : ∀ c, P c → P c.toUpper) {cs : List Char}
    (h : ∀ c ∈ cs, P c) : ∀ c ∈ upperFirst cs, P c := by
  cases cs with
  | nil => exact h
  | cons d cs =>
    rw [upperFirst]
    intro c hc
    obtain rfl | hc := List.mem_cons.mp hc
    · exact hP d (h d List.mem_cons_self)
    · exact h c (List.mem_cons_of_mem _ hc)

/-- Identifiers in camel case are made of letters and digits. -/
theorem isAlphanum_of_mem_camel {label : String} {c : Char}
    (h : c ∈ (ofLabel label).camel.toList) : c.isAlphanum = true := by
  rw [ofLabel, String.toList_ofList] at h
  generalize hws : words _ = ws at h
  have hall : ∀ w ∈ ws, ∀ c ∈ w, c.isAlphanum = true := fun w hw c hc =>
    isAlphanum_of_mem_words (hws ▸ hw) hc
  cases ws with
  | nil => cases h
  | cons w ws =>
    obtain h | h := List.mem_append.mp h
    · exact hall w List.mem_cons_self c h
    · obtain ⟨v, hv, hc⟩ := List.mem_flatten.mp h
      obtain ⟨u, hu, rfl⟩ := List.mem_map.mp hv
      exact forall_mem_upperFirst (P := (Char.isAlphanum · = true)) (fun _ => isAlphanum_toUpper)
        (hall u (List.mem_cons_of_mem _ hu)) c hc

/-- Identifiers in camel case are words. -/
theorem wordText_camel (label : String) : WordText (forBinding label).camel :=
  fun _ hc => isWord_of_isAlphanum (isAlphanum_of_mem_camel hc)

/-- A word that starts in upper case is a word. -/
theorem wordText_upperFirst {t : String} (h : WordText t) :
    WordText (String.ofList (upperFirst t.toList)) :=
  wordText_ofList (forall_mem_upperFirst (P := (isWord · = true)) (fun _ => isWord_toUpper) h)

/-- A text of code that starts in upper case is code. -/
theorem codeText_upperFirst {t : String} (h : CodeText t) :
    CodeText (String.ofList (upperFirst t.toList)) :=
  codeText_ofList (forall_mem_upperFirst (P := (isCode · = true)) (fun _ => isCode_toUpper) h)

end Promptwright.Script
