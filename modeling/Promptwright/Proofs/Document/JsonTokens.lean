import Promptwright.Document.JsonText
import Promptwright.Proofs.Text.Lines

/-!
# Strings and numbers in JSON texts

Between its quotes a string stands as it is, or with any of its characters escaped, by a letter or by
the digits of its code units.  However it is written, the reader finds the string and stops behind the
closing quote.  What it makes of a numeral does not depend on what follows, as long as that does not
go on with the numeral.

## Key results

- `Body`: the ways to write a string
- `string?_of_body`: a string is found
- `length_add_lt_of_string?`: a string is shorter than its text
- `number?_append`: a number is found, whatever follows
-/

namespace Promptwright.JsonText

/-! ## White space -/

/-- White space between the parts of a text. -/
def Blank (cs : List Char) : Prop := ∀ c ∈ cs, isSpace c = true

instance (cs : List Char) : Decidable (Blank cs) :=
  decidable_of_iff (cs.all isSpace = true) List.all_eq_true

/-- White space in front of another character is passed over. -/
theorem skipSpace_append {before : List Char} {c : Char} (hbefore : Blank before)
    (hc : isSpace c = false) (cs : List Char) : skipSpace (before ++ c :: cs) = c :: cs := by
  unfold skipSpace
  rw [List.dropWhile_append_of_pos hbefore, List.dropWhile_cons_of_neg (by simp [hc])]

/-! ## Strings -/

/-- Four hexadecimal digits for a number. -/
inductive HexDigits : Nat → List Char → Prop
  | mk {a b c d : Char} {i j k l : Nat} (ha : hexValue? a = some i) (hb : hexValue? b = some j)
      (hc : hexValue? c = some k) (hd : hexValue? d = some l) :
      HexDigits (((i * 16 + j) * 16 + k) * 16 + l) [a, b, c, d]

/-- What may stand between the quotes for the characters of a string. -/
inductive Body : List Char → List Char → Prop
  | nil : Body [] []
  /-- A character stands for itself. -/
  | plain {c : Char} {s body : List Char} (hquote : c ≠ '"') (hbackslash : c ≠ '\\')
      (hcontrol : 0x20 ≤ c.toNat) (h : Body s body) : Body (c :: s) (c :: body)
  /-- A letter stands for a character, or a character that would end the string for itself. -/
  | letter {e c : Char} {s body : List Char} (he : simpleEscape? e = some c) (h : Body s body) :
      Body (c :: s) ('\\' :: e :: body)
  /-- Digits stand for a character of one code unit. -/
  | unit {c : Char} {s digits body : List Char} (hdigits : HexDigits c.toNat digits)
      (h : Body s body) : Body (c :: s) ('\\' :: 'u' :: (digits ++ body))
  /-- Digits stand for the two halves of a surrogate pair. -/
  | pair {c : Char} {m n : Nat} {s high low body : List Char}
      (hc : c.toNat = 0x10000 + m * 0x400 + n) (hm : m < 0x400) (hn : n < 0x400)
      (hhigh : HexDigits (0xD800 + m) high) (hlow : HexDigits (0xDC00 + n) low)
      (h : Body s body) :
      Body (c :: s) ('\\' :: 'u' :: (high ++ '\\' :: 'u' :: (low ++ body)))

/-- A character that may stand for itself. -/
def isPlain (c : Char) : Bool := c ≠ '"' && c ≠ '\\' && 0x20 ≤ c.toNat

/-- A string of characters that may stand for themselves may stand as it is. -/
theorem body_self {s : List Char} (h : s.all isPlain = true) : Body s s := by
  induction s with
  | nil => exact .nil
  | cons c s ih =>
    simp only [List.all_cons, isPlain, Bool.and_eq_true, decide_eq_true_eq] at h
    obtain ⟨⟨⟨hquote, hbackslash⟩, hcontrol⟩, hs⟩ := h
    exact .plain hquote hbackslash hcontrol (ih hs)

/-- Four digits are read. -/
theorem takeHex4?_append {n : Nat} {digits : List Char} (h : HexDigits n digits)
    (rest : List Char) : takeHex4? (digits ++ rest) = some (n, rest) := by
  obtain ⟨ha, hb, hc, hd⟩ := h
  simp [takeHex4?, ha, hb, hc, hd]

/-- No character is half of a surrogate pair. -/
theorem not_surrogate (c : Char) : c.toNat < 0xD800 ∨ 0xDFFF < c.toNat := by
  have hvalid : c.toNat.isValidChar := c.valid
  unfold Nat.isValidChar at hvalid
  omega

/-- The digits of one code unit are read. -/
theorem unicodeEscape?_unit {c : Char} {digits : List Char} (h : HexDigits c.toNat digits)
    (rest : List Char) : unicodeEscape? (digits ++ rest) = some (c, rest) := by
  have hlow : ¬ (0xDC00 ≤ c.toNat ∧ c.toNat ≤ 0xDFFF) := by
    have := not_surrogate c
    omega
  have hhigh : ¬ (0xD800 ≤ c.toNat ∧ c.toNat ≤ 0xDBFF) := by
    have := not_surrogate c
    omega
  unfold unicodeEscape?
  simp only [takeHex4?_append h, bind, Option.bind]
  rw [if_neg hlow, if_neg hhigh, Char.ofNat_toNat]
  rfl

/-- The digits of a surrogate pair are read. -/
theorem unicodeEscape?_pair {c : Char} {m n : Nat} {high low : List Char}
    (hc : c.toNat = 0x10000 + m * 0x400 + n) (hm : m < 0x400) (hn : n < 0x400)
    (hhigh : HexDigits (0xD800 + m) high) (hlow : HexDigits (0xDC00 + n) low) (rest : List Char) :
    unicodeEscape? (high ++ '\\' :: 'u' :: (low ++ rest)) = some (c, rest) := by
  -- the reader takes both offsets off again
  have hvalue : 0x10000 + (0xD800 + m - 0xD800) * 0x400 + (0xDC00 + n - 0xDC00) = c.toNat := by
    omega
  unfold unicodeEscape?
  simp only [takeHex4?_append hhigh, bind, Option.bind]
  rw [if_neg (by omega), if_pos (by omega)]
  simp only [takeHex4?_append hlow]
  rw [if_pos (by omega), hvalue, Char.ofNat_toNat]
  rfl

/-- Letters stand for characters other than `u`, which introduces digits. -/
theorem ne_u_of_simpleEscape? {e c : Char} (h : simpleEscape? e = some c) : e ≠ 'u' := by
  rintro rfl
  cases h

/-- The characters of a string are found one after the other, up to the closing quote. -/
theorem takeString?_of_body {s body : List Char} (h : Body s body) (rest : List Char) :
    ∀ (fuel : Nat) (done : List Char), body.length < fuel →
      takeString? fuel done (body ++ '"' :: rest) =
        some (String.ofList (done.reverse ++ s), rest) := by
  -- along the ways to write the string: each character takes one step
  induction h with
  | nil =>
    intro fuel done hfuel
    obtain ⟨fuel, rfl⟩ : ∃ k, fuel = k + 1 := ⟨fuel - 1, by omega⟩
    simp [takeString?]
  | @plain c s body hquote hbackslash hcontrol _ ih =>
    intro fuel done hfuel
    rw [List.length_cons] at hfuel
    obtain ⟨fuel, rfl⟩ : ∃ k, fuel = k + 1 := ⟨fuel - 1, by omega⟩
    unfold takeString?
    dsimp only [List.cons_append]
    rw [if_neg hquote, if_neg hbackslash, if_neg (by omega), ih fuel _ (by omega)]
    simp
  | @letter e c s body he _ ih =>
    -- two characters of the text for one of the string, and one step of fuel
    intro fuel done hfuel
    rw [List.length_cons, List.length_cons] at hfuel
    obtain ⟨fuel, rfl⟩ : ∃ k, fuel = k + 1 := ⟨fuel - 1, by omega⟩
    rw [List.cons_append, List.cons_append, takeString?, if_neg (by decide), if_pos rfl]
    simp only [if_neg (ne_u_of_simpleEscape? he), he]
    rw [ih fuel _ (by omega)]
    simp
  | @unit c s digits body hdigits _ ih =>
    intro fuel done hfuel
    simp only [List.length_cons, List.length_append] at hfuel
    obtain ⟨fuel, rfl⟩ : ∃ k, fuel = k + 1 := ⟨fuel - 1, by omega⟩
    rw [List.cons_append, List.cons_append, List.append_assoc, takeString?, if_neg (by decide),
      if_pos rfl]
    simp only [if_pos, unicodeEscape?_unit hdigits]
    rw [ih fuel _ (by omega)]
    simp
  | @pair c m n s high low body hc hm hn hhigh hlow _ ih =>
    intro fuel done hfuel
    simp only [List.length_cons, List.length_append] at hfuel
    obtain ⟨fuel, rfl⟩ : ∃ k, fuel = k + 1 := ⟨fuel - 1, by omega⟩
    have hassoc : (high ++ '\\' :: 'u' :: (low ++ body)) ++ '"' :: rest =
        high ++ '\\' :: 'u' :: (low ++ (body ++ '"' :: rest)) := by simp
    rw [List.cons_append, List.cons_append, hassoc, takeString?, if_neg (by decide), if_pos rfl]
    simp only [if_pos, unicodeEscape?_pair hc hm hn hhigh hlow]
    rw [ih fuel _ (by omega)]
    simp

/-- A string is found, however it is written. -/
theorem string?_of_body {s body : List Char} (h : Body s body) (rest : List Char) :
    string? (body ++ '"' :: rest) = some (String.ofList s, rest) := by
  have hfuel : body.length < (body ++ '"' :: rest).length + 1 := by
    rw [List.length_append]
    omega
  rw [string?, takeString?_of_body h rest _ [] hfuel]
  rfl

/-! ### Lengths -/

/-- Four digits are taken off. -/
theorem length_of_takeHex4? {cs rest : List Char} {n : Nat} (h : takeHex4? cs = some (n, rest)) :
    rest.length + 4 = cs.length := by
  unfold takeHex4? at h
  split at h
  · simp only [bind, Option.bind_eq_some_iff] at h
    obtain ⟨i, -, j, -, k, -, l, -, h⟩ := h
    cases h
    rfl
  · cases h

/-- At least one character is taken off for a code unit or two. -/
theorem length_of_unicodeEscape? {cs rest : List Char} {c : Char}
    (h : unicodeEscape? cs = some (c, rest)) : rest.length < cs.length := by
  unfold unicodeEscape? at h
  obtain ⟨⟨unit, after⟩, hunit, h⟩ := Option.bind_eq_some_iff.mp h
  have hlength := length_of_takeHex4? hunit
  dsimp only at h
  split at h
  · cases h
  · split at h
    · -- a high surrogate needs its other half
      split at h
      · obtain ⟨⟨low, after⟩, hlow, h⟩ := Option.bind_eq_some_iff.mp h
        have hlength' := length_of_takeHex4? hlow
        dsimp only at h
        split at h
        · obtain ⟨-, rfl⟩ := Prod.mk.inj (Option.some.inj h)
          simp only [List.length_cons] at hlength
          omega
        · cases h
      · cases h
    · obtain ⟨-, rfl⟩ := Prod.mk.inj (Option.some.inj h)
      omega

/-- No character of a string comes from nothing, and the closing quote is taken off. -/
theorem length_of_takeString? {fuel : Nat} {done cs rest : List Char} {s : String}
    (h : takeString? fuel done cs = some (s, rest)) :
    s.length + rest.length < done.length + cs.length := by
  fun_induction takeString? fuel done cs with
  | case1 => cases h
  | case2 => cases h
  | case3 =>
    cases h
    simp
  | case4 => cases h
  | case5 => cases h
  -- an escape is longer than the character that it stands for
  | case6 fuel done cs c after hescape _ ih =>
    have hlength := length_of_unicodeEscape? hescape
    have := ih h
    simp only [List.length_cons] at this ⊢
    omega
  | case7 => cases h
  | case8 fuel done e cs _ c _ _ ih =>
    have := ih h
    simp only [List.length_cons] at this ⊢
    omega
  | case9 => cases h
  | case10 fuel done c cs _ _ _ ih =>
    have := ih h
    simp only [List.length_cons] at this ⊢
    omega

/-- A string is shorter than the text it is read from. -/
theorem length_add_lt_of_string? {cs rest : List Char} {s : String}
    (h : string? cs = some (s, rest)) : s.length + rest.length < cs.length := by
  have := length_of_takeString? h
  simpa using this

/-! ## Numbers -/

/-- What follows does not go on with a numeral. -/
def Stops (rest : List Char) : Prop :=
  ∀ c, rest.head? = some c → c.isDigit = false ∧ c ≠ '.' ∧ c ≠ 'e' ∧ c ≠ 'E'

section Append

variable {cs rest ds r : List Char}

/-- A run of digits ends where the text ends or goes on with something else. -/
theorem takeDigits_append (hrest : Stops rest) (cs : List Char) :
    takeDigits (cs ++ rest) = ((takeDigits cs).1, (takeDigits cs).2 ++ rest) := by
  unfold takeDigits
  induction cs with
  | nil =>
    -- the run has come to the end of the numeral
    have hdigit : ∀ c, rest.head? = some c → c.isDigit = false := fun c hc => (hrest c hc).1
    have hnil : ∀ c ∈ ([] : List Char), c.isDigit = true := List.forall_mem_nil _
    obtain ⟨htake, hdrop⟩ := Text.span_append hnil hdigit
    rw [List.nil_append] at htake hdrop
    simp [htake, hdrop]
  | cons c cs ih =>
    by_cases hc : c.isDigit = true
    · simpa [hc] using ih
    · simp [hc]

/-- The digits before the point are a run of digits, which does not start with a zero unless it is
one. -/
theorem takeWhole?_eq_some_iff : takeWhole? cs = some (ds, r) ↔
    takeDigits cs = (ds, r) ∧ ds ≠ [] ∧ ∀ d t, ds ≠ '0' :: d :: t := by
  unfold takeWhole?
  generalize takeDigits cs = found
  obtain ⟨ds', r'⟩ := found
  rw [Prod.mk.injEq]
  constructor
  · intro h
    split at h
    · cases h
    · next heq =>
      cases heq
      cases h
      simp
    · cases h
    -- what is left is not empty, and no zero in front of another digit
    · next hempty _ hzero =>
      cases h
      exact ⟨⟨rfl, rfl⟩, fun h => hempty _ (by rw [h]), fun d t h => hzero _ _ (by rw [h])⟩
  · rintro ⟨⟨rfl, rfl⟩, hempty, hzero⟩
    split
    · next heq =>
      cases heq
      exact absurd rfl hempty
    · next heq =>
      cases heq
      rfl
    · next t _ hone heq =>
      cases heq
      cases t with
      | nil => exact (hone rfl).elim
      | cons d t => exact absurd rfl (hzero d t)
    · rfl

/-- The digits before the point. -/
theorem takeWhole?_append (hrest : Stops rest) (h : takeWhole? cs = some (ds, r)) :
    takeWhole? (cs ++ rest) = some (ds, r ++ rest) := by
  rw [takeWhole?_eq_some_iff] at h ⊢
  rw [takeDigits_append hrest, h.1]
  exact ⟨rfl, h.2⟩

/-- The point and the digits behind it. -/
theorem takeFraction?_append {fraction : Option (List Char)} (hrest : Stops rest)
    (h : takeFraction? cs = some (fraction, r)) :
    takeFraction? (cs ++ rest) = some (fraction, r ++ rest) := by
  unfold takeFraction? at h
  split at h
  · next cs =>
    rw [List.cons_append, takeFraction?, takeDigits_append hrest]
    split at h
    · cases h
    · next ds r hempty hdigits =>
      cases h
      rw [hdigits]
      cases ds with
      | nil => exact (hempty rfl).elim
      | cons d ds => rfl
  · next hpoint =>
    -- there is no point, and none follows
    cases h
    have hnone : ∀ t, cs ++ rest ≠ '.' :: t := by
      intro t ht
      cases cs with
      | nil =>
        rw [List.nil_append] at ht
        exact (hrest '.' (by rw [ht]; rfl)).2.1 rfl
      | cons c cs =>
        cases ht
        exact hpoint _ rfl
    unfold takeFraction?
    split
    · next h => exact absurd h (hnone _)
    · rfl

/-- A sign is taken off the front of a text. -/
theorem takeSign_append (c : Char) (cs rest : List Char) :
    Binary64.takeSign (c :: cs ++ rest) =
      ((Binary64.takeSign (c :: cs)).1, (Binary64.takeSign (c :: cs)).2 ++ rest) := by
  rw [List.cons_append]
  -- only the first character matters
  by_cases hminus : c = '-'
  · subst hminus
    rfl
  · by_cases hplus : c = '+'
    · subst hplus
      rfl
    · simp [Binary64.takeSign, hminus, hplus]

/-- The exponent. -/
theorem takeExponent?_append {exponent : Option (Bool × List Char)} (hrest : Stops rest)
    (h : takeExponent? cs = some (exponent, r)) :
    takeExponent? (cs ++ rest) = some (exponent, r ++ rest) := by
  unfold takeExponent? at h
  split at h
  · -- the numeral ends here, and no exponent follows
    cases h
    rw [List.nil_append]
    unfold takeExponent?
    split
    · rfl
    · next c t =>
      obtain ⟨-, -, he, hE⟩ := hrest c rfl
      rw [if_neg (by simp [he, hE])]
  · next c t =>
    rw [List.cons_append]
    unfold takeExponent?
    dsimp only
    split at h
    · next hc =>
      rw [if_pos hc]
      cases t with
      | nil => cases h
      | cons d t =>
        rw [takeSign_append]
        dsimp only at h ⊢
        rw [takeDigits_append hrest]
        split at h
        · cases h
        · next ds r hempty hdigits =>
          cases h
          rw [hdigits]
          cases ds with
          | nil => exact (hempty rfl).elim
          | cons d ds => rfl
    · next hc =>
      cases h
      rw [if_neg hc]
      rfl

/-- Reads a number behind its sign. -/
def unsigned? (negative : Bool) (cs : List Char) : Option (Json.Number × List Char) := do
  let (whole, cs) ← takeWhole? cs
  let (fraction, cs) ← takeFraction? cs
  let (exponent, cs) ← takeExponent? cs
  let n ← Json.Number.ofNumeral? ⟨negative, whole, fraction, exponent⟩
  return (n, cs)

/-- A number with a sign. -/
theorem number?_minus (cs : List Char) : number? ('-' :: cs) = unsigned? true cs := rfl

/-- A number without a sign. -/
theorem number?_of_ne {c : Char} (hc : c ≠ '-') (cs : List Char) :
    number? (c :: cs) = unsigned? false (c :: cs) := by
  unfold number?
  split
  next heq =>
    split at heq
    · next h => exact absurd (List.cons.inj h).1 hc
    · cases heq
      rfl

/-- Nothing that follows a number changes it. -/
theorem unsigned?_append {negative : Bool} {x : Json.Number} (hrest : Stops rest)
    (h : unsigned? negative cs = some (x, r)) :
    unsigned? negative (cs ++ rest) = some (x, r ++ rest) := by
  obtain ⟨⟨whole, afterWhole⟩, hwhole, h⟩ := Option.bind_eq_some_iff.mp h
  obtain ⟨⟨fraction, afterFraction⟩, hfraction, h⟩ := Option.bind_eq_some_iff.mp h
  obtain ⟨⟨exponent, afterExponent⟩, hexponent, h⟩ := Option.bind_eq_some_iff.mp h
  obtain ⟨y, hy, h⟩ := Option.bind_eq_some_iff.mp h
  obtain ⟨rfl, rfl⟩ := Prod.mk.inj (Option.some.inj h)
  simp only [unsigned?, bind, takeWhole?_append hrest hwhole, takeFraction?_append hrest hfraction,
    takeExponent?_append hrest hexponent, Option.bind_some]
  exact Option.bind_eq_some_iff.mpr ⟨y, hy, rfl⟩

/-- A number is found, whatever follows that does not go on with it. -/
theorem number?_append {x : Json.Number} (hrest : Stops rest) (h : number? cs = some (x, r)) :
    number? (cs ++ rest) = some (x, r ++ rest) := by
  cases cs with
  | nil => cases h
  | cons c cs =>
    rw [List.cons_append]
    by_cases hc : c = '-'
    · subst hc
      rw [number?_minus] at h ⊢
      exact unsigned?_append hrest h
    · rw [number?_of_ne hc] at h ⊢
      exact unsigned?_append hrest h

/-- A number starts with a sign or a digit. -/
theorem head_of_number? {c : Char} {x : Json.Number} (h : number? (c :: cs) = some (x, r)) :
    c = '-' ∨ c.isDigit = true := by
  by_cases hc : c = '-'
  · exact .inl hc
  · right
    rw [number?_of_ne hc] at h
    obtain ⟨⟨whole, afterWhole⟩, hwhole, -⟩ := Option.bind_eq_some_iff.mp h
    obtain ⟨hdigits, hempty, -⟩ := takeWhole?_eq_some_iff.mp hwhole
    -- the run of digits would be empty otherwise
    by_contra hdigit
    rw [takeDigits, List.takeWhile_cons_of_neg hdigit] at hdigits
    exact hempty (Prod.mk.inj hdigits).1.symm

end Append

end Promptwright.JsonText
