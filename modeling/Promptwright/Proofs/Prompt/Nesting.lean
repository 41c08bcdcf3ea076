import Promptwright.Proofs.Prompt.Braces

/-!
# Properly nested braces

In a pattern with properly nested braces, every pair of braces stands for its choices, and those may
hold braces of their own.  Such patterns are trees, and this module says what a tree stands for when
every pair of braces is cut at its own commas.

## Key results

- `closes_zero_iff`: the texts of trees are those whose braces are properly nested
- `Closes.exists_first`: the first closing brace, and what is left without it
- `Nested.alternatives_group`: what braces stand for
- `Nested.alternatives_split`: the choices, if all commas stand behind the inner braces
-/

namespace Promptwright.Braces

/-! ## Texts and trees -/

/-- The braces of a text are properly nested, with some closing ones for which the opening ones
stand in front of the text. -/
inductive Closes : Nat → List Char → Prop
  | nil : Closes 0 []
  | char {n : Nat} {c : Char} {cs : List Char} (hc : c ≠ '\x7b' ∧ c ≠ '\x7d') (h : Closes n cs) :
      Closes n (c :: cs)
  | opening {n : Nat} {cs : List Char} (h : Closes (n + 1) cs) : Closes n ('\x7b' :: cs)
  | closing {n : Nat} {cs : List Char} (h : Closes n cs) : Closes (n + 1) ('\x7d' :: cs)

/-- A pattern with properly nested braces. -/
inductive Nested
  | nil
  | char (c : Char) (hc : c ≠ '\x7b' ∧ c ≠ '\x7d') (rest : Nested)
  | group (inside rest : Nested)

namespace Nested

/-- The characters of a pattern. -/
def text : Nested → List Char
  | nil => []
  | char c _ rest => c :: rest.text
  | group inside rest => '\x7b' :: (inside.text ++ '\x7d' :: rest.text)

/-- What stands inside the outermost braces. -/
def bodies : Nested → List Nested
  | nil => []
  | char _ _ rest => rest.bodies
  | group inside rest => inside :: rest.bodies

/-- The first choice and the other ones, cut at the commas that do not stand inside braces. -/
def split : Nested → Nested × List Nested
  | nil => (nil, [])
  | char c hc rest =>
    if c = ',' then (nil, rest.split.1 :: rest.split.2)
    else (char c hc rest.split.1, rest.split.2)
  | group inside rest => (group inside rest.split.1, rest.split.2)

/-- The choices between commas. -/
def choices (p : Nested) : List Nested := p.split.1 :: p.split.2

/-- A choice is not longer than all of them together. -/
theorem length_text_le {p q : Nested} (hq : q ∈ p.choices) : q.text.length ≤ p.text.length := by
  induction p generalizing q with
  | nil =>
    obtain rfl := List.mem_singleton.mp hq
    exact Nat.le_refl _
  | char c hc rest ih =>
    rw [choices, split] at hq
    simp only [text, List.length_cons]
    -- a comma ends the first choice, and any other character belongs to it
    split at hq
    · obtain rfl | hq := List.mem_cons.mp hq
      · simp [text]
      · have := ih hq
        omega
    · obtain rfl | hq := List.mem_cons.mp hq
      · have := ih List.mem_cons_self
        simp only [text, List.length_cons]
        omega
      · have := ih (List.mem_cons_of_mem _ hq)
        omega
  | group inside rest _ ih =>
    rw [choices, split] at hq
    simp only [text, List.length_cons, List.length_append]
    obtain rfl | hq := List.mem_cons.mp hq
    · have := ih List.mem_cons_self
      simp only [text, List.length_cons, List.length_append]
      omega
    · have := ih (List.mem_cons_of_mem _ hq)
      omega

/-- The patterns that a pattern with nested braces stands for: every pair of braces stands for what
its choices stand for, one after the other. -/
def alternatives : Nested → List (List Char)
  | nil => [[]]
  | char c _ rest => rest.alternatives.map (c :: ·)
  | group inside rest =>
    (inside.choices.attach.flatMap fun q => q.1.alternatives).flatMap fun a =>
      rest.alternatives.map (a ++ ·)
termination_by p => p.text.length
decreasing_by
  · simp [text]
  · simp only [text, List.length_cons, List.length_append]
    omega
  · have := length_text_le q.2
    simp only [text, List.length_cons, List.length_append]
    omega

/-- What braces stand for, in front of the rest of a pattern. -/
theorem alternatives_group (inside rest : Nested) :
    (group inside rest).alternatives =
      (inside.choices.flatMap alternatives).flatMap fun a => rest.alternatives.map (a ++ ·) := by
  have hattach : (inside.choices.attach.flatMap fun q => q.1.alternatives) =
      inside.choices.flatMap alternatives := by
    conv_rhs => rw [← List.attach_map_subtype_val inside.choices, List.flatMap_map]
  rw [alternatives, hattach]

end Nested

variable {n : Nat} {p : Nested} {cs v w x y : List Char} {ws : List (List Char)}

/-! ## Nesting by counting -/

/-- Whether a text is properly nested does not depend on characters other than braces. -/
theorem closes_char_iff {c : Char} (hc : c ≠ '\x7b' ∧ c ≠ '\x7d') :
    Closes n (c :: cs) ↔ Closes n cs := by
  refine ⟨fun h => ?_, .char hc⟩
  cases h with
  | char _ h => exact h
  | opening => exact absurd rfl hc.1
  | closing => exact absurd rfl hc.2

/-- An opening brace has to be closed. -/
theorem closes_opening_iff : Closes n ('\x7b' :: cs) ↔ Closes (n + 1) cs := by
  refine ⟨fun h => ?_, .opening⟩
  cases h with
  | char hc => exact absurd rfl hc.1
  | opening h => exact h

/-- A closing brace needs an opening one in front. -/
theorem closes_closing_iff : Closes n ('\x7d' :: cs) ↔ ∃ m, n = m + 1 ∧ Closes m cs := by
  constructor
  · intro h
    cases h with
    | char hc => exact absurd rfl hc.2
    | closing h => exact ⟨_, rfl, h⟩
  · rintro ⟨m, rfl, h⟩
    exact .closing h

/-- As many braces are closed as were opened, and those that stand in front. -/
theorem Closes.count (h : Closes n cs) : cs.count '\x7d' = cs.count '\x7b' + n := by
  induction h with
  | nil => rfl
  | char hc _ ih => simp [hc, ih]
  | opening _ ih =>
    simp [ih]
    omega
  | closing _ ih =>
    simp [ih]
    omega

/-- Opening braces in front of a text are for it to close. -/
theorem closes_append_iff (hx : '\x7d' ∉ x) :
    Closes n (x ++ y) ↔ Closes (n + x.count '\x7b') y := by
  induction x generalizing n with
  | nil => rfl
  | cons c x ih =>
    rw [List.mem_cons, not_or] at hx
    rw [List.cons_append]
    by_cases hc : c = '\x7b'
    · subst hc
      rw [closes_opening_iff, ih hx.2, List.count_cons_self, Nat.add_assoc, Nat.add_comm 1]
    · rw [closes_char_iff ⟨hc, Ne.symm hx.1⟩, ih hx.2, List.count_cons_of_ne hc]

/-- Behind the last closing brace there is no opening one. -/
theorem Closes.of_append (h : Closes n (v ++ w)) (hw : '\x7d' ∉ w) :
    '\x7b' ∉ w ∧ Closes n v := by
  induction v generalizing n with
  | nil =>
    have hcount := Closes.count h
    rw [List.nil_append, List.count_eq_zero_of_not_mem hw] at hcount
    obtain rfl : n = 0 := by omega
    exact ⟨List.count_eq_zero.mp (by omega), .nil⟩
  | cons c v ih =>
    rw [List.cons_append] at h
    cases h with
    | char hc h => exact (ih h).imp_right (.char hc)
    | opening h => exact (ih h).imp_right .opening
    | closing h => exact (ih h).imp_right .closing

/-- The first closing brace of a properly nested text, and the first opening one.  Without these, the
rest is properly nested. -/
theorem Closes.exists_first (h : Closes 0 v) (hv : '\x7d' ∈ v) :
    ∃ x₁ x₂ y, v = x₁ ++ '\x7b' :: (x₂ ++ '\x7d' :: y) ∧ '\x7b' ∉ x₁ ∧ '\x7d' ∉ x₁ ∧ '\x7d' ∉ x₂ ∧
      Closes 0 (x₂ ++ y) := by
  obtain ⟨x, y, rfl, hx⟩ := List.eq_append_cons_of_mem hv
  obtain ⟨m, hm, hy⟩ := closes_closing_iff.mp ((closes_append_iff hx).mp h)
  have hopen : '\x7b' ∈ x := List.count_pos_iff.mp (by omega)
  obtain ⟨x₁, x₂, rfl, hx₁⟩ := List.eq_append_cons_of_mem hopen
  simp only [List.mem_append, List.mem_cons, not_or] at hx
  refine ⟨x₁, x₂, y, by simp, hx₁, hx.1, hx.2.2, (closes_append_iff hx.2.2).mpr ?_⟩
  have hcount : x₂.count '\x7b' = m := by
    rw [List.count_append, List.count_cons_self, List.count_eq_zero_of_not_mem hx₁] at hm
    omega
  rwa [Nat.zero_add, hcount]

/-- The text of a tree is properly nested, whatever stands behind it. -/
theorem closes_text_append (p : Nested) (h : Closes n cs) : Closes n (p.text ++ cs) := by
  induction p generalizing n cs with
  | nil => exact h
  | char c hc rest ih => exact .char hc (ih h)
  | group inside rest ihi ihr =>
    have htext : (Nested.group inside rest).text ++ cs =
        '\x7b' :: (inside.text ++ '\x7d' :: (rest.text ++ cs)) := by simp [Nested.text]
    rw [htext]
    exact .opening (ihi (.closing (ihr h)))

/-- A properly nested text is made of trees, one behind each brace that it closes. -/
theorem Closes.exists_trees (h : Closes n cs) :
    ∃ (p : Nested) (ps : List Nested), ps.length = n ∧
      cs = p.text ++ ps.flatMap fun q => '\x7d' :: q.text := by
  induction h with
  | nil => exact ⟨.nil, [], rfl, rfl⟩
  | char hc _ ih =>
    obtain ⟨p, ps, hlen, rfl⟩ := ih
    exact ⟨.char _ hc p, ps, hlen, rfl⟩
  | opening _ ih =>
    obtain ⟨p, ps, hlen, rfl⟩ := ih
    cases ps with
    | nil => cases hlen
    | cons q ps => exact ⟨.group p q, ps, Nat.succ.inj hlen, by simp [Nested.text]⟩
  | closing _ ih =>
    obtain ⟨p, ps, rfl, rfl⟩ := ih
    exact ⟨.nil, p :: ps, rfl, rfl⟩

/-- The properly nested texts are those of the trees. -/
theorem closes_zero_iff : Closes 0 cs ↔ ∃ p : Nested, p.text = cs := by
  constructor
  · intro h
    obtain ⟨p, ps, hlen, rfl⟩ := h.exists_trees
    obtain rfl := List.length_eq_zero_iff.mp hlen
    exact ⟨p, (List.append_nil _).symm⟩
  · rintro ⟨p, rfl⟩
    have h := closes_text_append p .nil
    rwa [List.append_nil] at h

/-! ## Alternatives without braces -/

/-- A text without its braces. -/
def bare (cs : List Char) : List Char := cs.filter fun c => c ≠ '\x7b' ∧ c ≠ '\x7d'

theorem bare_append (x y : List Char) : bare (x ++ y) = bare x ++ bare y := List.filter_append ..

/-- A text without braces stays as it is. -/
theorem bare_eq_self (hopen : '\x7b' ∉ x) (hclose : '\x7d' ∉ x) : bare x = x := by
  refine List.filter_eq_self.mpr fun c hc => decide_eq_true ⟨?_, ?_⟩
  · rintro rfl
    exact hopen hc
  · rintro rfl
    exact hclose hc

/-- No braces are left. -/
theorem not_mem_bare (x : List Char) : '\x7b' ∉ bare x ∧ '\x7d' ∉ bare x := by
  simp [bare]

/-- The commas are. -/
theorem comma_mem_bare_iff : ',' ∈ bare x ↔ ',' ∈ x := by
  simp [bare]

/-- All commas between braces stand behind the inner braces. -/
def CommasLast (body : List Char) : Prop := ∀ v w, body = v ++ ',' :: w → '\x7d' ∉ w

/-- A text without the separator goes with the first piece behind it. -/
theorem splitAt_append_of_not_mem {sep : Char} (hx : sep ∉ x) (hy : Text.splitAt sep y = w :: ws) :
    Text.splitAt sep (x ++ y) = (x ++ w) :: ws := by
  induction x with
  | nil => exact hy
  | cons c x ih =>
    rw [List.mem_cons, not_or] at hx
    rw [List.cons_append, Text.splitAt, if_neg (Ne.symm hx.1), ih hx.2]
    rfl

namespace Nested

theorem bare_text_char {c : Char} (hc : c ≠ '\x7b' ∧ c ≠ '\x7d') (rest : Nested) :
    bare (char c hc rest).text = c :: bare rest.text := by
  simp [text, bare, hc]

theorem bare_text_group (inside rest : Nested) :
    bare (group inside rest).text = bare inside.text ++ bare rest.text := by
  simp [text, bare]

/-- Without commas there is one choice, and it stands for one text. -/
theorem alternatives_of_comma_not_mem (h : ',' ∉ p.text) :
    p.split = (p, []) ∧ p.alternatives = [bare p.text] := by
  induction p with
  | nil => exact ⟨rfl, by rw [alternatives]; rfl⟩
  | char c hc rest ih =>
    rw [text, List.mem_cons, not_or] at h
    obtain ⟨hsplit, halternatives⟩ := ih h.2
    constructor
    · rw [split, if_neg (Ne.symm h.1), hsplit]
    · rw [alternatives, halternatives, bare_text_char, List.map_singleton]
  | group inside rest ihi ihr =>
    simp only [text, List.mem_cons, List.mem_append, not_or] at h
    obtain ⟨hspliti, hinside⟩ := ihi h.2.1
    -- neither the inside nor the rest is split, so one text is put in front of one
    obtain ⟨hsplitr, hrest⟩ := ihr h.2.2.2
    constructor
    · rw [split, hsplitr]
    · rw [alternatives_group, choices, hspliti, bare_text_group]
      simp [hinside, hrest]

/-- With all commas behind the inner braces, the choices stand for what is between the commas. -/
theorem alternatives_split (h : CommasLast p.text) (hw : Text.splitAt ',' (bare p.text) = w :: ws) :
    p.split.1.alternatives = [w] ∧ p.split.2.flatMap alternatives = ws := by
  induction p generalizing w ws with
  | nil =>
    cases hw
    exact ⟨by rw [split, alternatives], rfl⟩
  | char c hc rest ih =>
    have hrest : CommasLast rest.text := fun v w heq => h (c :: v) w (by rw [text, heq]; rfl)
    obtain ⟨w', ws', hw'⟩ := List.exists_cons_of_ne_nil (Text.splitAt_ne_nil ',' (bare rest.text))
    obtain ⟨hfirst, hothers⟩ := ih hrest hw'
    rw [bare_text_char] at hw
    rw [split]
    by_cases hcomma : c = ','
    · rw [Text.splitAt, if_pos hcomma, hw'] at hw
      cases hw
      rw [if_pos hcomma, List.flatMap_cons, hfirst, hothers, alternatives]
      exact ⟨rfl, rfl⟩
    · rw [Text.splitAt, if_neg hcomma, hw'] at hw
      cases hw
      rw [if_neg hcomma, alternatives, hfirst]
      exact ⟨rfl, hothers⟩
  | group inside rest _ ih =>
    have hrest : CommasLast rest.text := by
      intro v w heq
      exact h ('\x7b' :: (inside.text ++ '\x7d' :: v)) w (by simp [text, heq])
    -- a comma in the braces would have their closing one behind it
    have hinside : ',' ∉ inside.text := by
      intro hmem
      obtain ⟨v, w, heq⟩ := List.append_of_mem hmem
      exact h ('\x7b' :: v) (w ++ '\x7d' :: rest.text) (by simp [text, heq]) (by simp)
    obtain ⟨hspliti, halternatives⟩ := alternatives_of_comma_not_mem hinside
    obtain ⟨w', ws', hw'⟩ := List.exists_cons_of_ne_nil (Text.splitAt_ne_nil ',' (bare rest.text))
    obtain ⟨hfirst, hothers⟩ := ih hrest hw'
    rw [bare_text_group, splitAt_append_of_not_mem (mt comma_mem_bare_iff.mp hinside) hw'] at hw
    cases hw
    rw [split, alternatives_group, choices, hspliti]
    simp [halternatives, hfirst, hothers]

/-- No alternative has braces. -/
theorem not_mem_of_mem_alternatives (hq : x ∈ p.alternatives) : '\x7b' ∉ x ∧ '\x7d' ∉ x := by
  induction hn : p.text.length using Nat.strong_induction_on generalizing p x with
  | _ n ih =>
    cases p with
    | nil =>
      rw [alternatives, List.mem_singleton] at hq
      subst hq
      exact ⟨List.not_mem_nil, List.not_mem_nil⟩
    | char c hc rest =>
      rw [alternatives] at hq
      obtain ⟨y, hy, rfl⟩ := List.mem_map.mp hq
      obtain ⟨hopen, hclose⟩ := ih _ (by rw [← hn]; simp [text]) hy rfl
      simp [Ne.symm hc.1, Ne.symm hc.2, hopen, hclose]
    | group inside rest =>
      have hlen : inside.text.length < n ∧ rest.text.length < n := by
        rw [← hn]
        simp only [text, List.length_cons, List.length_append]
        omega
      rw [alternatives_group] at hq
      -- a choice of the inside, and an alternative of the rest
      obtain ⟨a, ha, hq⟩ := List.mem_flatMap.mp hq
      obtain ⟨q, hqi, ha⟩ := List.mem_flatMap.mp ha
      obtain ⟨y, hy, rfl⟩ := List.mem_map.mp hq
      have hfront := ih _ (Nat.lt_of_le_of_lt (length_text_le hqi) hlen.1) ha rfl
      have hback := ih _ hlen.2 hy rfl
      simp [hfront, hback]

end Nested

end Promptwright.Braces
