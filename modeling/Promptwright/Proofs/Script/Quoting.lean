import Promptwright.Proofs.Document.JsonTexts
import Promptwright.Proofs.Script.Evaluation

/-!
# Literals that are read back

`Script.quote` writes a text as a literal that ends where it ends, whatever stands behind it: the
formatter reads all of it as one literal and goes on right behind it.  The literal stands on one
line.  It is a string of JSON and of scripts alike, and both read the text from it.

## Key results

- `isPrintable_of_mem_quote`: the characters of a literal
- `body_flatMap_escapeChar`: escapes of scripts are escapes of JSON
- `lex_quote`: a literal in front of any text
- `quote_read_back`: literals are read back
-/

namespace Promptwright.Script

/-! ## Characters -/

/-- Whether a character may stand in a literal: it ends no line, and it is no control character of
ASCII but the last one. -/
def IsPrintable (c : Char) : Prop := 0x20 ≤ c.toNat ∧ c.toNat ≠ 0x2028 ∧ c.toNat ≠ 0x2029

instance (c : Char) : Decidable (IsPrintable c) := inferInstanceAs (Decidable (_ ∧ _ ∧ _))

/-- The digits of a number. -/
theorem exists_of_mem_hex4 {n : Nat} {c : Char} (h : c ∈ hex4 n) :
    ∃ i : Fin 16, c = Nat.digitChar i.val := by
  have hlt : ∀ k, k % 16 < 16 := fun k => Nat.mod_lt k (by decide)
  simp only [hex4, List.mem_cons, List.not_mem_nil, or_false] at h
  obtain rfl | rfl | rfl | rfl := h
  · exact ⟨⟨_, hlt _⟩, rfl⟩
  · exact ⟨⟨_, hlt _⟩, rfl⟩
  · exact ⟨⟨_, hlt _⟩, rfl⟩
  · exact ⟨⟨_, hlt _⟩, rfl⟩

/-- Letters that stand behind a backslash can be printed. -/
theorem isPrintable_of_escaped {e c : Char} (h : escaped e = some c) : IsPrintable e := by
  unfold escaped at h
  split at h <;> first | decide | cases h

/-- However a character is written, all of that can be printed. -/
theorem isPrintable_of_mem_escapeChar {b c : Char} (h : c ∈ escapeChar b) : IsPrintable c := by
  obtain ⟨e, hb, he⟩ | ⟨hb, -⟩ | ⟨hb, -, -, hprint⟩ := escapeChar_cases b
  · simp only [hb, List.mem_cons, List.not_mem_nil, or_false] at h
    obtain rfl | rfl := h
    · decide
    · exact isPrintable_of_escaped he
  · have hdigit : ∀ i : Fin 16, IsPrintable (Nat.digitChar i.val) := by decide
    simp only [hb, List.mem_cons] at h
    obtain rfl | rfl | h := h
    · decide
    · decide
    · obtain ⟨i, rfl⟩ := exists_of_mem_hex4 h
      exact hdigit i
  · rw [hb, List.mem_singleton] at h
    exact h ▸ hprint

/-- All characters of a literal can be printed. -/
theorem isPrintable_of_mem_quote {s : String} {c : Char} (h : c ∈ (quote s).toList) :
    IsPrintable c := by
  rw [quote, String.toList_ofList, quoteChars] at h
  simp only [List.cons_append, List.mem_cons, List.mem_append, List.mem_flatMap,
    List.not_mem_nil, or_false] at h
  obtain rfl | ⟨b, -, h⟩ | rfl := h
  · decide
  · exact isPrintable_of_mem_escapeChar h
  · decide

/-! ## JSON -/

/-- The digits that scripts write have their values in JSON. -/
theorem hexValue?_digitChar {n : Nat} (h : n < 16) :
    JsonText.hexValue? (Nat.digitChar n) = some n := by
  have hall : ∀ i : Fin 16, JsonText.hexValue? (Nat.digitChar i.val) = some i.val := by decide
  exact hall ⟨n, h⟩

/-- Four digits stand for the number that they are made from. -/
theorem hexDigits_hex4 {n : Nat} (h : n < 0x10000) : JsonText.HexDigits n (hex4 n) := by
  have hlt : ∀ k, k % 16 < 16 := fun k => Nat.mod_lt k (by decide)
  have hvalue : ((n / 4096 % 16 * 16 + n / 256 % 16) * 16 + n / 16 % 16) * 16 + n % 16 = n := by
    omega
  have hdigits := JsonText.HexDigits.mk (hexValue?_digitChar (hlt (n / 4096)))
    (hexValue?_digitChar (hlt (n / 256))) (hexValue?_digitChar (hlt (n / 16)))
    (hexValue?_digitChar (hlt n))
  rwa [hvalue] at hdigits

/-- The letters that scripts write stand for the same characters in JSON. -/
theorem simpleEscape?_of_escaped {e c : Char} (h : escaped e = some c) :
    JsonText.simpleEscape? e = some c := by
  unfold escaped at h
  split at h <;> cases h <;> rfl

/-- A character as scripts write it is one that JSON reads. -/
theorem body_escapeChar_append {s body : List Char} (c : Char) (h : JsonText.Body s body) :
    JsonText.Body (c :: s) (escapeChar c ++ body) := by
  obtain ⟨e, hc, he⟩ | ⟨hc, hlt⟩ | ⟨hc, hb, hq, hcode, -⟩ := escapeChar_cases c
  · rw [hc]
    exact .letter (simpleEscape?_of_escaped he) h
  · rw [hc]
    exact .unit (hexDigits_hex4 hlt) h
  · rw [hc]
    exact .plain hq hb hcode h

/-- Between its quotes, a literal is a way to write the text in JSON. -/
theorem body_flatMap_escapeChar (cs : List Char) : JsonText.Body cs (cs.flatMap escapeChar) := by
  induction cs with
  | nil => exact .nil
  | cons c cs ih => exact body_escapeChar_append c ih

/-- A literal is a JSON text, and the text that it is made from is its value. -/
theorem ofText?_quote (s : String) : Json.ofText? (quote s) = some (.string s) := by
  refine Json.ofText?_of_layout trivial (Nat.zero_le _) ⟨[], (quote s).toList, [], by simp, ?_, ?_, ?_⟩
  · exact List.forall_mem_nil _
  · exact ⟨_, by rw [quote, String.toList_ofList]; rfl, body_flatMap_escapeChar s.toList⟩
  · exact List.forall_mem_nil _

/-! ## Scripts -/

/-- In front of any text, a literal is read as one token, and reading goes on right behind it. -/
theorem lex_quote (s : String) (rest : List Char) :
    lex .code ((quote s).toList ++ rest) =
      push (.literal false (s.toList.flatMap escapeChar)) (lex .code rest) := by
  have hbody : Body (quoteChar false) (s.toList.flatMap escapeChar) :=
    (spells_flatMap_escapeChar s.toList).body.1
  have hquote : (quote s).toList ++ rest =
      '"' :: (s.toList.flatMap escapeChar ++ quoteChar false :: rest) := by
    simp [quote, quoteChars, quoteChar]
  rw [hquote, lex, lexLiteral_body hbody]
  rfl

/-- As an expression, a literal has the text as its value. -/
theorem evaluate_quote (s : String) : evaluate (quote s) = some (.string (units s)) :=
  (Denotes.literal (literal_quote s)).evaluate_eq

/-! ## Literals -/

/-- A literal says where it ends, and what it says is the text that it is made from.  Whatever stands
behind it, the formatter reads all of the literal as one token and goes on right behind it.  Nothing
in the literal ends a line, in scripts either, and there is no control character in it.  The reader
of JSON and the evaluation of scripts undo the escapes: both find the text. -/
theorem quote_read_back (s : String) (rest : List Char) :
    ∃ body, (quote s).toList = '"' :: body ++ ['"'] ∧
      lex .code ((quote s).toList ++ rest) = push (.literal false body) (lex .code rest) ∧
      (Token.literal false body).text = (quote s).toList ∧
      (∀ c ∈ (quote s).toList, IsPrintable c) ∧
      JsonText.string? (body ++ '"' :: rest) = some (s, rest) ∧
      Json.ofText? (quote s) = some (.string s) ∧
      evaluate (quote s) = some (.string (units s)) := by
  have hquote : (quote s).toList = '"' :: s.toList.flatMap escapeChar ++ ['"'] := by
    rw [quote, String.toList_ofList, quoteChars]
  refine ⟨s.toList.flatMap escapeChar, hquote, lex_quote s rest, hquote.symm,
    fun c hc => isPrintable_of_mem_quote hc, ?_, ofText?_quote s, evaluate_quote s⟩
  rw [JsonText.string?_of_body (body_flatMap_escapeChar s.toList), String.ofList_toList]

/-- A text that ends in a quote and a backslash, with the end of a line and two characters before
them that have no letters. -/
def awkward : String := "a\nb\u2028\x01\"\\"

/-- In front of a quote and a backslash of a line that goes on, this text is still one literal. -/
theorem quote_read_back_awkward :
    quote awkward = "\"a\\nb\\u2028\\u0001\\\"\\\\\"" ∧
    ('\\' ∈ (quote awkward).toList ∧ IsPrintable '\\') ∧
    (∃ body, lex .code ((quote awkward).toList ++ ['"', '\\']) =
      push (.literal false body) ([.unclosed false ['\\']], .code)) ∧
    Json.ofText? (quote awkward) = some (.string awkward) := by
  obtain ⟨body, -, hlex, -, hprint, -, hjson, -⟩ := quote_read_back awkward ['"', '\\']
  have hmem : '\\' ∈ (quote awkward).toList := by decide
  exact ⟨by decide, ⟨hmem, hprint _ hmem⟩, ⟨body, hlex⟩, hjson⟩

end Promptwright.Script
