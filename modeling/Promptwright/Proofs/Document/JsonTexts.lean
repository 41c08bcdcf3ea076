import Mathlib.Data.List.DropRight
import Promptwright.Document.JsonValue
import Promptwright.Proofs.Document.JsonTokens
import Promptwright.Proofs.Document.Spelling
import Promptwright.Proofs.Json.Reordered

/-!
# Layouts of JSON texts

A value can be written in many ways: white space may stand around every part of it, and the characters
of its strings may be escaped.  The reader finds the value in every layout, as long as it need not go
deeper than it can, and as long as it takes every numeral for the number that is meant.

## Key results

- `Json.Layout`: the ways to write a value
- `value_of_layout`: a value is found in each of its layouts
- `ofText?_of_layout`: so it is the value of the whole text
- `ofText?_ne_string_self`: no string is the value of the text that it holds
-/

namespace Promptwright

/-! ## Layouts -/

namespace JsonText

/-- A text with white space around it. -/
def Padded (P : List Char → Prop) (cs : List Char) : Prop :=
  ∃ before text after, cs = before ++ (text ++ after) ∧ Blank before ∧ P text ∧ Blank after

/-- A string between its quotes. -/
def Quoted (s : String) (cs : List Char) : Prop :=
  ∃ body, cs = '"' :: (body ++ ['"']) ∧ Body s.toList body

/-- A key, a colon and a value. -/
def Keyed (key : String) (P : List Char → Prop) (cs : List Char) : Prop :=
  ∃ name text, cs = name ++ ':' :: text ∧ Padded (Quoted key) name ∧ Padded P text

end JsonText

namespace Json

open JsonText (Blank Padded Quoted Keyed)

mutual

/-- The ways to write a value.  A number is written as a numeral that the reader takes for it. -/
def Layout : Json → List Char → Prop
  | .null, cs => cs = ['n', 'u', 'l', 'l']
  | .bool true, cs => cs = ['t', 'r', 'u', 'e']
  | .bool false, cs => cs = ['f', 'a', 'l', 's', 'e']
  | .number x, cs => JsonText.number? cs = some (x, [])
  | .string s, cs => Quoted s cs
  | .array items, cs => ∃ inner, cs = '[' :: (inner ++ [']']) ∧ ItemsLayout items inner
  | .object members, cs => ∃ inner, cs = '\x7b' :: (inner ++ ['\x7d']) ∧ MembersLayout members inner
  termination_by structural j => j

/-- The ways to write items, with commas between them. -/
def ItemsLayout : List Json → List Char → Prop
  | [], cs => Blank cs
  | [j], cs => Padded (Layout j) cs
  | j :: j' :: js, cs => ∃ first others, cs = first ++ ',' :: others ∧ Padded (Layout j) first ∧
      ItemsLayout (j' :: js) others
  termination_by structural js => js

/-- The ways to write members, with commas between them. -/
def MembersLayout : List (String × Json) → List Char → Prop
  | [], cs => Blank cs
  | [(key, j)], cs => Keyed key (Layout j) cs
  | (key, j) :: m :: ms, cs => ∃ first others, cs = first ++ ',' :: others ∧
      Keyed key (Layout j) first ∧ MembersLayout (m :: ms) others
  termination_by structural ms => ms

end

mutual

/-- How many containers stand inside one another. -/
def nesting : Json → Nat
  | .null => 0
  | .bool _ => 0
  | .number _ => 0
  | .string _ => 0
  | .array items => itemsNesting items + 1
  | .object members => membersNesting members + 1
  termination_by structural j => j

/-- The most containers inside an item. -/
def itemsNesting : List Json → Nat
  | [] => 0
  | j :: js => max (nesting j) (itemsNesting js)
  termination_by structural js => js

/-- The most containers inside the value of a member. -/
def membersNesting : List (String × Json) → Nat
  | [] => 0
  | (_, j) :: ms => max (nesting j) (membersNesting ms)
  termination_by structural ms => ms

end

/-- Every item has at most the containers of all of them. -/
theorem nesting_le_of_mem_items {j : Json} {js : List Json} (h : j ∈ js) :
    j.nesting ≤ itemsNesting js := by
  induction js with
  | nil => cases h
  | cons j' js ih =>
    rw [itemsNesting]
    cases h with
    | head => exact Nat.le_max_left _ _
    | tail _ h => exact Nat.le_trans (ih h) (Nat.le_max_right _ _)

/-- So has the value of every member. -/
theorem nesting_le_of_mem_members {m : String × Json} {ms : Members} (h : m ∈ ms) :
    m.2.nesting ≤ membersNesting ms := by
  induction ms with
  | nil => cases h
  | cons m' ms ih =>
    obtain ⟨key, j⟩ := m'
    rw [membersNesting]
    cases h with
    | head => exact Nat.le_max_left _ _
    | tail _ h => exact Nat.le_trans (ih h) (Nat.le_max_right _ _)

end Json

namespace JsonText

variable {fuel depth : Nat} {cs rest after t : List Char} {node : Node} {key : String}

/-! ## White space -/

/-- White space is passed over once. -/
theorem skipSpace_skipSpace (cs : List Char) : skipSpace (skipSpace cs) = skipSpace cs :=
  List.dropWhile_idempotent isSpace cs

/-- Nothing goes on with a numeral that starts with another character. -/
theorem stops_cons {c : Char} (h : c.isDigit = false ∧ c ≠ '.' ∧ c ≠ 'e' ∧ c ≠ 'E') :
    Stops (c :: rest) := by
  intro d hd
  obtain rfl : c = d := Option.some.inj hd
  exact h

/-- White space is one of four characters. -/
theorem isSpace_iff {c : Char} : isSpace c = true ↔ c = ' ' ∨ c = '\n' ∨ c = '\t' ∨ c = '\r' := by
  simp only [isSpace, Bool.or_eq_true, beq_iff_eq, or_assoc]

/-- Nothing behind white space goes on with a numeral. -/
theorem stops_append {before : List Char} (hbefore : Blank before) (h : Stops rest) :
    Stops (before ++ rest) := by
  cases before with
  | nil => exact h
  | cons c before =>
    apply stops_cons
    obtain rfl | rfl | rfl | rfl := isSpace_iff.mp (hbefore c List.mem_cons_self) <;> decide

/-- White space does not go on with a numeral. -/
theorem stops_of_blank (h : Blank cs) : Stops cs := by
  rw [← List.append_nil cs]
  exact stops_append h nofun

/-! ## One step of the reader -/

section Steps

-- only here does simplification open the reader
attribute [local simp] value items entries

/-- White space in front of a value does not matter. -/
theorem value_skipSpace : value fuel depth (skipSpace cs) = value fuel depth cs := by
  cases fuel with
  | zero => rfl
  | succ fuel => rw [value, value, skipSpace_skipSpace]

/-- White space in front of items does not matter. -/
theorem items_skipSpace : items fuel depth (skipSpace cs) = items fuel depth cs := by
  cases fuel with
  | zero => rfl
  | succ fuel => rw [items, items, value_skipSpace]

/-- White space in front of members does not matter. -/
theorem entries_skipSpace : entries fuel depth (skipSpace cs) = entries fuel depth cs := by
  cases fuel with
  | zero => rfl
  | succ fuel => rw [entries, entries, skipSpace_skipSpace]

/-- The word for null. -/
theorem value_null (h : skipSpace cs = 'n' :: 'u' :: 'l' :: 'l' :: rest) :
    value (fuel + 1) depth cs = (.atom .null, some rest) := by
  simp [h, value.word, afterWord?]

/-- The word for true. -/
theorem value_true (h : skipSpace cs = 't' :: 'r' :: 'u' :: 'e' :: rest) :
    value (fuel + 1) depth cs = (.atom (.bool true), some rest) := by
  simp [h, value.word, afterWord?]

/-- The word for false. -/
theorem value_false (h : skipSpace cs = 'f' :: 'a' :: 'l' :: 's' :: 'e' :: rest) :
    value (fuel + 1) depth cs = (.atom (.bool false), some rest) := by
  simp [h, value.word, afterWord?]

/-- A string. -/
theorem value_string {s : String} (h : skipSpace cs = '"' :: t)
    (hs : string? t = some (s, rest)) :
    value (fuel + 1) depth cs = (.atom (.string s), some rest) := by
  simp [h, hs]

/-- An empty array. -/
theorem value_emptyArray (h : skipSpace cs = '[' :: t) (hdepth : depth < maxDepth)
    (hclose : skipSpace t = ']' :: rest) :
    value (fuel + 1) depth cs = (.sequence false [], some rest) := by
  simp [h, Nat.not_le_of_lt hdepth, hclose]

/-- An array with items. -/
theorem value_array (h : skipSpace cs = '[' :: t) (hdepth : depth < maxDepth)
    (hopen : (skipSpace t).head? ≠ some ']') :
    value (fuel + 1) depth cs =
      (.sequence false (items fuel (depth + 1) t).1, (items fuel (depth + 1) t).2) := by
  simp only [value, h, if_neg (Nat.not_le_of_lt hdepth)]
  split
  · next hclose => exact (hopen (by rw [hclose]; rfl)).elim
  · rw [items_skipSpace]

/-- An empty object. -/
theorem value_emptyObject (h : skipSpace cs = '\x7b' :: t) (hdepth : depth < maxDepth)
    (hclose : skipSpace t = '\x7d' :: rest) :
    value (fuel + 1) depth cs = (.mapping false [], some rest) := by
  simp [h, Nat.not_le_of_lt hdepth, hclose]

/-- An object with members. -/
theorem value_object (h : skipSpace cs = '\x7b' :: t) (hdepth : depth < maxDepth)
    (hopen : (skipSpace t).head? ≠ some '\x7d') :
    value (fuel + 1) depth cs =
      (.mapping false (entries fuel (depth + 1) t).1, (entries fuel (depth + 1) t).2) := by
  simp only [value, h, if_neg (Nat.not_le_of_lt hdepth)]
  split
  · next hclose => exact (hopen (by rw [hclose]; rfl)).elim
  · rw [entries_skipSpace]

/-- A number. -/
theorem value_number {x : Json.Number} {c : Char} (h : skipSpace cs = c :: t)
    (hx : number? (c :: t) = some (x, rest)) :
    value (fuel + 1) depth cs = (numberNode x, some rest) := by
  have hc : c = '-' ∨ c.isDigit = true := head_of_number? hx
  rw [value, h]
  split
  · next heq => cases heq
  · next heq => cases heq; exact absurd hc (by decide)
  · next heq => cases heq; exact absurd hc (by decide)
  · next heq => cases heq; exact absurd hc (by decide)
  · next heq => cases heq; exact absurd hc (by decide)
  · next heq => cases heq; exact absurd hc (by decide)
  · next heq => cases heq; exact absurd hc (by decide)
  · rw [hx]

/-- The last item of an array. -/
theorem items_last (hvalue : value fuel depth cs = (node, some after))
    (hafter : skipSpace after = ']' :: rest) :
    items (fuel + 1) depth cs = ([node], some rest) := by
  simp [hvalue, hafter]

/-- An item with others behind it. -/
theorem items_next (hvalue : value fuel depth cs = (node, some after))
    (hafter : skipSpace after = ',' :: rest) :
    items (fuel + 1) depth cs = (node :: (items fuel depth rest).1, (items fuel depth rest).2) := by
  simp [hvalue, hafter]

section Member

variable {u v : List Char} (hname : skipSpace cs = '"' :: t) (hkey : string? t = some (key, u))
  (hcolon : skipSpace u = ':' :: v) (hvalue : value fuel depth v = (node, some after))

include hname hkey hcolon hvalue

/-- The last member of an object. -/
theorem entries_last (hafter : skipSpace after = '\x7d' :: rest) :
    entries (fuel + 1) depth cs = ([(.atom (.string key), node)], some rest) := by
  simp [hname, hkey, hcolon, hvalue, hafter]

/-- A member with others behind it. -/
theorem entries_next (hafter : skipSpace after = ',' :: rest) :
    entries (fuel + 1) depth cs =
      ((.atom (.string key), node) :: (entries fuel depth rest).1,
        (entries fuel depth rest).2) := by
  simp [hname, hkey, hcolon, hvalue, hafter]

end Member

end Steps

/-! ## Every layout is read -/

/-- Wherever a value is written, and the reader may go deep enough, it finds the value and stops
behind it. -/
def Found (j : Json) : Prop :=
  ∀ {fuel depth : Nat} {before cs rest : List Char}, Blank before → j.Layout cs → Stops rest →
    2 * cs.length ≤ fuel → depth + j.nesting ≤ maxDepth →
      value fuel depth (before ++ (cs ++ rest)) = (Node.ofJson j, some rest)

/-- Every layout starts with a character that is no white space, and closes no array. -/
theorem head_of_layout {j : Json} (h : j.Layout cs) :
    ∃ c t, cs = c :: t ∧ isSpace c = false ∧ c ≠ ']' := by
  cases j with
  | null => exact ⟨_, _, h, by decide⟩
  | bool b => cases b <;> exact ⟨_, _, h, by decide⟩
  | number x =>
    cases cs with
    | nil => cases h
    | cons c cs =>
      refine ⟨c, cs, rfl, ?_⟩
      have hc : c = '-' ∨ c.isDigit = true := head_of_number? h
      constructor
      -- neither a sign nor a digit is white space
      · by_contra hspace
        obtain rfl | rfl | rfl | rfl := isSpace_iff.mp (Bool.not_eq_false _ ▸ hspace) <;>
          exact absurd hc (by decide)
      · rintro rfl
        exact absurd hc (by decide)
  | string s =>
    obtain ⟨body, rfl, -⟩ := h
    exact ⟨_, _, rfl, by decide⟩
  | array items =>
    obtain ⟨inner, rfl, -⟩ := h
    exact ⟨_, _, rfl, by decide⟩
  | object members =>
    obtain ⟨inner, rfl, -⟩ := h
    exact ⟨_, _, rfl, by decide⟩

section Parts

variable {c : Char} {j : Json}

/-- A value with white space around it is found, in front of a character that ends it. -/
theorem value_of_padded (hj : Found j) (h : Padded j.Layout cs) (hc : isSpace c = false)
    (hstop : Stops (c :: rest)) (hfuel : 2 * cs.length ≤ fuel)
    (hdepth : depth + j.nesting ≤ maxDepth) :
    ∃ after, value fuel depth (cs ++ c :: rest) = (Node.ofJson j, some after) ∧
      skipSpace after = c :: rest := by
  obtain ⟨before, text, blank, rfl, hbefore, htext, hblank⟩ := h
  simp only [List.length_append] at hfuel
  refine ⟨blank ++ c :: rest, ?_, skipSpace_append hblank hc rest⟩
  rw [List.append_assoc, List.append_assoc]
  exact hj hbefore htext (stops_append hblank hstop) (by omega) hdepth

/-- A key with white space around it is found, in front of the colon. -/
theorem string?_of_padded {name : List Char} (h : Padded (Quoted key) name) (rest : List Char) :
    ∃ t u, skipSpace (name ++ ':' :: rest) = '"' :: t ∧ string? t = some (key, u) ∧
      skipSpace u = ':' :: rest := by
  obtain ⟨before, _, blank, rfl, hbefore, ⟨body, rfl, hbody⟩, hblank⟩ := h
  refine ⟨body ++ '"' :: (blank ++ ':' :: rest), blank ++ ':' :: rest, ?_, ?_,
    skipSpace_append hblank (by decide) rest⟩
  · simp only [List.append_assoc, List.cons_append, List.nil_append]
    exact skipSpace_append hbefore (by decide) _
  · rw [string?_of_body hbody, String.ofList_toList]

/-- A member is found part by part. -/
theorem member_of_keyed (hj : Found j) (h : Keyed key j.Layout cs) (hc : isSpace c = false)
    (hstop : Stops (c :: rest)) (hfuel : 2 * cs.length ≤ fuel)
    (hdepth : depth + j.nesting ≤ maxDepth) :
    ∃ t u v after, skipSpace (cs ++ c :: rest) = '"' :: t ∧ string? t = some (key, u) ∧
      skipSpace u = ':' :: v ∧ value fuel depth v = (Node.ofJson j, some after) ∧
        skipSpace after = c :: rest := by
  obtain ⟨name, text, rfl, hname, htext⟩ := h
  simp only [List.length_append, List.length_cons] at hfuel
  have htextFuel : 2 * text.length ≤ fuel := by omega
  obtain ⟨after, hvalue, hafter⟩ := value_of_padded hj htext hc hstop htextFuel hdepth
  obtain ⟨t, u, ht, hu, hcolon⟩ := string?_of_padded hname (text ++ c :: rest)
  refine ⟨t, u, _, after, ?_, hu, hcolon, hvalue, hafter⟩
  rw [List.append_assoc, List.cons_append]
  exact ht

end Parts

/-- Items are found one after the other. -/
theorem items_of_layout {js : List Json} (hjs : ∀ j ∈ js, Found j)
    (hdepth : ∀ j ∈ js, depth + j.nesting ≤ maxDepth) (hne : js ≠ []) :
    ∀ {fuel : Nat} {inner : List Char}, Json.ItemsLayout js inner → 2 * inner.length + 1 ≤ fuel →
      items fuel depth (inner ++ ']' :: rest) = (Node.ofItems js, some rest) := by
  induction js with
  | nil => exact (hne rfl).elim
  | cons j js ih =>
    have hj : Found j := hjs j List.mem_cons_self
    have hjdepth := hdepth j List.mem_cons_self
    intro fuel inner h hfuel
    obtain ⟨fuel, rfl⟩ : ∃ k, fuel = k + 1 := ⟨fuel - 1, by omega⟩
    -- a comma comes before every item but the first, and pays for the step to it
    cases js with
    | nil =>
      have hstop : Stops (']' :: rest) := stops_cons (by decide)
      have hlast : 2 * inner.length ≤ fuel := by omega
      obtain ⟨after, hvalue, hafter⟩ := value_of_padded hj h (by decide) hstop hlast hjdepth
      exact items_last hvalue hafter
    | cons j' js =>
      obtain ⟨first, others, rfl, hfirst, hothers⟩ := h
      simp only [List.length_append, List.length_cons] at hfuel
      have hstop : Stops (',' :: (others ++ ']' :: rest)) := stops_cons (by decide)
      have hfirstFuel : 2 * first.length ≤ fuel := by omega
      obtain ⟨after, hvalue, hafter⟩ :=
        value_of_padded hj hfirst (by decide) hstop hfirstFuel hjdepth
      have hothersFuel : 2 * others.length + 1 ≤ fuel := by omega
      have hrest := ih (fun i hi => hjs i (List.mem_cons_of_mem _ hi))
        (fun i hi => hdepth i (List.mem_cons_of_mem _ hi)) (List.cons_ne_nil _ _) hothers
        hothersFuel
      rw [List.append_assoc, List.cons_append, items_next hvalue hafter, hrest]
      rfl

/-- Members are found one after the other. -/
theorem entries_of_layout {ms : List (String × Json)} (hms : ∀ m ∈ ms, Found m.2)
    (hdepth : ∀ m ∈ ms, depth + m.2.nesting ≤ maxDepth) (hne : ms ≠ []) :
    ∀ {fuel : Nat} {inner : List Char}, Json.MembersLayout ms inner →
      2 * inner.length + 1 ≤ fuel →
        entries fuel depth (inner ++ '\x7d' :: rest) = (Node.ofMembers ms, some rest) := by
  induction ms with
  | nil => exact (hne rfl).elim
  | cons m ms ih =>
    obtain ⟨key, j⟩ := m
    have hj : Found j := hms _ List.mem_cons_self
    have hjdepth := hdepth _ List.mem_cons_self
    intro fuel inner h hfuel
    obtain ⟨fuel, rfl⟩ : ∃ k, fuel = k + 1 := ⟨fuel - 1, by omega⟩
    -- behind the last member there is a brace, and behind every other one a comma
    cases ms with
    | nil =>
      have hstop : Stops ('\x7d' :: rest) := stops_cons (by decide)
      have hlast : 2 * inner.length ≤ fuel := by omega
      obtain ⟨t, u, v, after, ht, hu, hv, hvalue, hafter⟩ :=
        member_of_keyed hj h (by decide) hstop hlast hjdepth
      exact entries_last ht hu hv hvalue hafter
    | cons m' ms =>
      obtain ⟨first, others, rfl, hfirst, hothers⟩ := h
      simp only [List.length_append, List.length_cons] at hfuel
      have hstop : Stops (',' :: (others ++ '\x7d' :: rest)) := stops_cons (by decide)
      have hfirstFuel : 2 * first.length ≤ fuel := by omega
      obtain ⟨t, u, v, after, ht, hu, hv, hvalue, hafter⟩ :=
        member_of_keyed hj hfirst (by decide) hstop hfirstFuel hjdepth
      have hothersFuel : 2 * others.length + 1 ≤ fuel := by omega
      have hrest := ih (fun i hi => hms i (List.mem_cons_of_mem _ hi))
        (fun i hi => hdepth i (List.mem_cons_of_mem _ hi)) (List.cons_ne_nil _ _) hothers
        hothersFuel
      rw [List.append_assoc, List.cons_append, entries_next ht hu hv hvalue hafter, hrest]
      rfl

/-- Items start with a character that closes no array. -/
theorem head?_of_itemsLayout {j : Json} {js : List Json} (h : Json.ItemsLayout (j :: js) cs) :
    (skipSpace (cs ++ rest)).head? ≠ some ']' := by
  -- a value with white space around it comes first, whether or not more follow
  obtain ⟨first, others, rfl, before, text, blank, rfl, hbefore, htext, -⟩ :
      ∃ first others, cs = first ++ others ∧ Padded j.Layout first := by
    cases js with
    | nil => exact ⟨cs, [], (List.append_nil cs).symm, h⟩
    | cons j' js =>
      obtain ⟨first, others, rfl, hfirst, -⟩ := h
      exact ⟨first, _, rfl, hfirst⟩
  obtain ⟨c, t, rfl, hc, hclose⟩ := head_of_layout htext
  simp only [List.append_assoc, List.cons_append, skipSpace_append hbefore hc]
  simpa using hclose

/-- Members start with a quote. -/
theorem head?_of_membersLayout {m : String × Json} {ms : List (String × Json)}
    (h : Json.MembersLayout (m :: ms) cs) : (skipSpace (cs ++ rest)).head? ≠ some '\x7d' := by
  obtain ⟨name, others, rfl, hname⟩ :
      ∃ name others, cs = name ++ ':' :: others ∧ Padded (Quoted m.1) name := by
    cases ms with
    | nil =>
      obtain ⟨name, text, rfl, hname, -⟩ := h
      exact ⟨name, text, rfl, hname⟩
    | cons m' ms =>
      obtain ⟨_, others, rfl, ⟨name, text, rfl, hname, -⟩, -⟩ := h
      exact ⟨name, text ++ ',' :: others, by simp, hname⟩
  obtain ⟨t, u, ht, -⟩ := string?_of_padded hname (others ++ rest)
  rw [List.append_assoc, List.cons_append, ht]
  exact fun h => absurd (Option.some.inj h) (by decide)

/-- No layout is empty, so the reader may take a step. -/
theorem found_of_step {j : Json}
    (h : ∀ {fuel depth : Nat} {before cs rest : List Char}, Blank before → j.Layout cs →
      Stops rest → 2 * cs.length ≤ fuel + 1 → depth + j.nesting ≤ maxDepth →
        value (fuel + 1) depth (before ++ (cs ++ rest)) = (Node.ofJson j, some rest)) :
    Found j := by
  intro fuel depth before cs rest hbefore hlayout hstop hfuel hdepth
  obtain ⟨c, t, rfl, -⟩ := head_of_layout hlayout
  rw [List.length_cons] at hfuel
  obtain ⟨fuel, rfl⟩ : ∃ k, fuel = k + 1 := ⟨fuel - 1, by omega⟩
  exact h hbefore hlayout hstop hfuel hdepth

/-- Null is found. -/
theorem found_null : Found .null := by
  apply found_of_step
  intro fuel depth before cs rest hbefore h _ _ _
  obtain rfl : cs = _ := h
  exact value_null (skipSpace_append hbefore (by decide) _)

/-- The two words are found. -/
theorem found_bool (b : Bool) : Found (.bool b) := by
  apply found_of_step
  intro fuel depth before cs rest hbefore h _ _ _
  cases b with
  | true =>
    obtain rfl : cs = _ := h
    exact value_true (skipSpace_append hbefore (by decide) _)
  | false =>
    obtain rfl : cs = _ := h
    exact value_false (skipSpace_append hbefore (by decide) _)

/-- Numbers are found. -/
theorem found_number (x : Json.Number) : Found (.number x) := by
  apply found_of_step
  intro fuel depth before cs rest hbefore h hstop _ _
  obtain ⟨c, t, rfl, hc, -⟩ := head_of_layout h
  -- what follows does not change the number that the numeral is read as
  have hx := number?_append hstop h
  rw [List.cons_append] at hx ⊢
  rw [value_number (skipSpace_append hbefore hc _) hx]
  cases x <;> rfl

/-- Strings are found. -/
theorem found_string (s : String) : Found (.string s) := by
  apply found_of_step
  intro fuel depth before cs rest hbefore h _ _ _
  obtain ⟨body, rfl, hbody⟩ := h
  have hs := string?_of_body hbody rest
  rw [String.ofList_toList] at hs
  rw [List.cons_append, List.append_assoc]
  exact value_string (skipSpace_append hbefore (by decide) _) hs

/-- An array is found if its items are. -/
theorem found_array {js : List Json} (hjs : ∀ j ∈ js, Found j) : Found (.array js) := by
  apply found_of_step
  intro fuel depth before cs rest hbefore h _ hfuel hdepth
  obtain ⟨inner, rfl, hinner⟩ := h
  rw [Json.nesting] at hdepth
  rw [List.cons_append, List.append_assoc]
  have hskip : skipSpace (before ++ '[' :: (inner ++ ([']'] ++ rest))) =
      '[' :: (inner ++ ']' :: rest) := skipSpace_append hbefore (by decide) _
  cases js with
  | nil => exact value_emptyArray hskip (by omega) (skipSpace_append hinner (by decide) rest)
  | cons j js =>
    have hitems : ∀ i ∈ j :: js, depth + 1 + i.nesting ≤ maxDepth := by
      intro i hi
      have := Json.nesting_le_of_mem_items hi
      omega
    -- the brackets leave fuel for the items
    simp only [List.length_cons, List.length_append, List.length_nil] at hfuel
    rw [value_array hskip (by omega) (head?_of_itemsLayout hinner),
      items_of_layout hjs hitems (List.cons_ne_nil _ _) hinner (by omega)]
    rfl

/-- An object is found if the values of its members are. -/
theorem found_object {ms : Json.Members} (hms : ∀ m ∈ ms, Found m.2) : Found (.object ms) := by
  apply found_of_step
  intro fuel depth before cs rest hbefore h _ hfuel hdepth
  obtain ⟨inner, rfl, hinner⟩ := h
  rw [Json.nesting] at hdepth
  rw [List.cons_append, List.append_assoc]
  have hskip : skipSpace (before ++ '\x7b' :: (inner ++ (['\x7d'] ++ rest))) =
      '\x7b' :: (inner ++ '\x7d' :: rest) := skipSpace_append hbefore (by decide) _
  cases ms with
  | nil => exact value_emptyObject hskip (by omega) (skipSpace_append hinner (by decide) rest)
  | cons m ms =>
    have hmembers : ∀ n ∈ m :: ms, depth + 1 + n.2.nesting ≤ maxDepth := by
      intro n hn
      have := Json.nesting_le_of_mem_members hn
      omega
    -- the two braces are counted for more steps than they take
    simp only [List.length_cons, List.length_append, List.length_nil] at hfuel
    rw [value_object hskip (by omega) (head?_of_membersLayout hinner),
      entries_of_layout hms hmembers (List.cons_ne_nil _ _) hinner (by omega)]
    rfl

/-- A value is found in each of its layouts. -/
theorem value_of_layout (j : Json) : Found j := by
  induction j using Json.value_induction with
  | null => exact found_null
  | bool b => exact found_bool b
  | number x => exact found_number x
  | string s => exact found_string s
  | array js ih => exact found_array ih
  | object ms ih => exact found_object ih

/-! ## Strings are shorter than their texts -/

/-- A sequence is no string. -/
theorem json_sequence_ne_string (tagged : Bool) (nodes : List Node) (s : String) :
    (Node.sequence tagged nodes).json ≠ .ok (.string s) := by
  rw [Node.json]
  split
  · exact nofun
  · cases Node.jsonItems nodes <;> exact nofun

/-- A mapping is no string. -/
theorem json_mapping_ne_string (tagged : Bool) (es : List (Node × Node)) (s : String) :
    (Node.mapping tagged es).json ≠ .ok (.string s) := by
  rw [Node.json]
  split
  · exact nofun
  · cases Node.jsonMembers es [] <;> exact nofun

/-- Only strings are read as strings. -/
theorem eq_string_of_ofAtom {a : Atom} {s : String} (h : Node.ofAtom a = .ok (.string s)) :
    a = .string s := by
  cases a with
  | float x =>
    rw [Node.ofAtom] at h
    split at h <;> cases h
  | string s' =>
    cases h
    rfl
  | null | bool _ | integer _ | wide _ => cases h

/-- No word is a string. -/
theorem json_word_ne_string {word : List Char} {a : Atom} {s : String} (ha : a ≠ .string s) :
    (value.word word a cs).1.json ≠ .ok (.string s) := by
  unfold value.word
  split
  · exact fun h => ha (eq_string_of_ofAtom h)
  · exact nofun

/-- No number is a string. -/
theorem json_numberNode_ne_string (x : Json.Number) (s : String) :
    (numberNode x).json ≠ .ok (.string s) := by
  intro h
  cases x with
  | integer n => cases h
  | float y =>
    have hatom : Node.ofAtom (.float y) = .ok (.string s) := h
    cases eq_string_of_ofAtom hatom

/-- A string that the reader finds is shorter than the text. -/
theorem length_lt_of_value {s : String} (h : (value fuel depth cs).1.json = .ok (.string s)) :
    s.length < cs.length := by
  have hle : (skipSpace cs).length ≤ cs.length := (List.dropWhile_suffix isSpace).length_le
  cases fuel with
  | zero => cases h
  | succ fuel =>
    rw [value] at h
    split at h
    · cases h
    · exact absurd h (json_word_ne_string (by simp))
    · exact absurd h (json_word_ne_string (by simp))
    · exact absurd h (json_word_ne_string (by simp))
    -- a text that starts with a quote is the only one with a string
    · next t hskip =>
      split at h
      · next s' rest hs =>
        cases h
        have := length_add_lt_of_string? hs
        rw [hskip, List.length_cons] at hle
        omega
      · cases h
    · split at h
      · cases h
      · split at h
        · exact (json_sequence_ne_string _ _ s h).elim
        · exact (json_sequence_ne_string _ _ s h).elim
    · split at h
      · cases h
      · split at h
        · exact (json_mapping_ne_string _ _ s h).elim
        · exact (json_mapping_ne_string _ _ s h).elim
    · split at h
      · next x rest _ => exact absurd h (json_numberNode_ne_string x s)
      · cases h

end JsonText

/-! ## Whole texts -/

namespace Json

open JsonText (Padded Blank maxDepth)

variable {j : Json} {text : String}

/-- A value is the value of its texts. -/
theorem ofText?_of_layout (hj : j.WellFormed) (hdepth : j.nesting ≤ maxDepth)
    (h : Padded j.Layout text.toList) : ofText? text = some j := by
  obtain ⟨before, cs, after, htext, hbefore, hcs, hafter⟩ := h
  have hlength : text.length = before.length + (cs.length + after.length) := by
    rw [← String.length_toList, htext, List.length_append, List.length_append]
  have hstop : JsonText.Stops after := JsonText.stops_of_blank hafter
  have hvalue : JsonText.value (2 * text.length + 2) 0 text.toList =
      (Node.ofJson j, some after) := by
    rw [htext]
    exact JsonText.value_of_layout j hbefore hcs hstop (by omega) (by omega)
  have hnode : (Node.ofJson j).json = .ok j := Node.json_of_spelled j hj _ (spelled_ofJson j)
  have hend : JsonText.skipSpace after = [] := List.dropWhile_eq_nil_iff.mpr hafter
  rw [ofText?, Document.ofJsonText, hvalue]
  simp only [hend, List.isEmpty_nil]
  rw [Document.read, hnode]
  rfl

/-- Whatever a text holds was read from the tree of the text. -/
theorem json_of_ofText? (h : ofText? text = some j) :
    (JsonText.value (2 * text.length + 2) 0 text.toList).1.json = .ok j := by
  unfold ofText? at h
  cases hread : (Document.ofJsonText text).read Node.json with
  | error e =>
    rw [hread] at h
    cases h
  | ok j' =>
    rw [hread] at h
    cases h
    obtain ⟨j', hjson, hread⟩ := bind_eq_ok hread
    split at hread
    · cases hread
      unfold Document.ofJsonText at hjson
      split at hjson <;> next hvalue => rw [hvalue]; exact hjson
    · cases hread

/-- Texts hold values that documents can hold. -/
theorem wellFormed_of_ofText? (h : ofText? text = some j) : j.WellFormed :=
  Node.wellFormed_of_json _ (json_of_ofText? h)

/-- No text holds itself. -/
theorem ofText?_ne_string_self (text : String) : ofText? text ≠ some (.string text) := by
  intro h
  have := JsonText.length_lt_of_value (json_of_ofText? h)
  rw [String.length_toList] at this
  omega

end Json

end Promptwright
