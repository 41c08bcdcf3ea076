import Promptwright.Proofs.Prompt.Expansion
import Promptwright.Proofs.Prompt.Nesting

/-!
# Braces inside braces

Expanding does not look for the brace that belongs to another one: the first opening brace goes with
the first closing one, and every comma between them ends a choice.  So braces are left over if a comma
stands in front of a closing brace inside, and the text in front of inner braces becomes part of every
choice.

## Key results

- `expand_merged`, `Parted.expand_eq`: braces without commas in front of a closing one inside
- `exists_closing_mem_expand`: braces with such a comma
- `expandBraces_nested`: when no brace is left, and when the patterns are those that nesting asks for
- `nested_braces_left`: a choice with braces of its own
-/

namespace Promptwright.Braces

variable {p : Nested} {cs u v w x y tail body inner : List Char} {ws : List (List Char)}

/-! ## What stands in front of inner braces -/

/-- What stands in front of the last opening brace, without braces. -/
def lead : List Char → List Char
  | [] => []
  | c :: cs => if '\x7b' ∈ cs then bare [c] ++ lead cs else []

/-- What stands behind the last opening brace, without braces. -/
def trail : List Char → List Char
  | [] => []
  | c :: cs => if '\x7b' ∈ cs then trail cs else bare (c :: cs)

theorem lead_of_not_mem (h : '\x7b' ∉ x) : lead x = [] := by
  cases x with
  | nil => rfl
  | cons c x => rw [lead, if_neg fun hmem => h (List.mem_cons_of_mem _ hmem)]

theorem trail_of_not_mem (h : '\x7b' ∉ x) : trail x = bare x := by
  cases x with
  | nil => rfl
  | cons c x => rw [trail, if_neg fun hmem => h (List.mem_cons_of_mem _ hmem)]

/-- Both together are the whole text. -/
theorem lead_append_trail (x : List Char) : lead x ++ trail x = bare x := by
  induction x with
  | nil => rfl
  | cons c x ih =>
    rw [lead, trail]
    split
    · rw [List.append_assoc, ih, ← bare_append, List.singleton_append]
    · rfl

/-- Neither has braces. -/
theorem not_mem_lead_trail (x : List Char) :
    ('\x7b' ∉ lead x ∧ '\x7d' ∉ lead x) ∧ '\x7b' ∉ trail x ∧ '\x7d' ∉ trail x := by
  obtain ⟨hopen, hclose⟩ := not_mem_bare x
  rw [← lead_append_trail, List.mem_append, not_or] at hopen hclose
  exact ⟨⟨hopen.1, hclose.1⟩, hopen.2, hclose.2⟩

/-- A text without braces in front of an opening one. -/
theorem lead_opening (hopen : '\x7b' ∉ x) (hclose : '\x7d' ∉ x) (y : List Char) :
    lead (x ++ '\x7b' :: y) = x ++ lead y ∧ trail (x ++ '\x7b' :: y) = trail y := by
  induction x with
  | nil =>
    rw [List.nil_append, lead, trail]
    split
    · exact ⟨rfl, rfl⟩
    next h =>
      rw [lead_of_not_mem h, trail_of_not_mem h]
      exact ⟨rfl, rfl⟩
  | cons c x ih =>
    rw [List.mem_cons, not_or] at hopen hclose
    have hc : bare [c] = [c] := bare_eq_self (by simpa using hopen.1) (by simpa using hclose.1)
    obtain ⟨hlead, htrail⟩ := ih hopen.2 hclose.2
    rw [List.cons_append, lead, trail, if_pos (by simp), if_pos (by simp), hc, hlead, htrail]
    exact ⟨rfl, rfl⟩

/-- A closing brace makes no difference. -/
theorem lead_closing (x y : List Char) :
    lead (x ++ '\x7d' :: y) = lead (x ++ y) ∧ trail (x ++ '\x7d' :: y) = trail (x ++ y) := by
  induction x with
  | nil =>
    rw [List.nil_append, List.nil_append, lead, trail]
    split
    · exact ⟨rfl, rfl⟩
    next h =>
      rw [lead_of_not_mem h, trail_of_not_mem h]
      exact ⟨rfl, rfl⟩
  | cons c x ih =>
    -- a closing brace is no opening one, and it is not bare
    have hmem : '\x7b' ∈ x ++ '\x7d' :: y ↔ '\x7b' ∈ x ++ y := by simp
    have hbare : bare (c :: (x ++ '\x7d' :: y)) = bare (c :: (x ++ y)) := by
      simp [bare, List.filter_cons]
    rw [List.cons_append, List.cons_append, lead, trail, lead, trail, ih.1, ih.2, hbare]
    by_cases h : '\x7b' ∈ x ++ y
    · simp only [if_pos h, if_pos (hmem.mpr h), and_self]
    · simp only [if_neg h, if_neg (mt hmem.mp h), and_self]

/-- Neither does what stands behind the last opening brace. -/
theorem lead_append_of_not_mem (hy : '\x7b' ∉ y) (x : List Char) : lead (x ++ y) = lead x := by
  induction x with
  | nil => exact lead_of_not_mem hy
  | cons c x ih =>
    have hmem : '\x7b' ∈ x ++ y ↔ '\x7b' ∈ x := by simp [hy]
    rw [List.cons_append, lead, lead, ih]
    simp only [hmem]

/-- There is nothing in front exactly if nothing but braces stands in front of any opening one. -/
theorem lead_eq_nil_iff : lead x = [] ↔ ∀ v w, x = v ++ '\x7b' :: w → bare v = [] := by
  induction x with
  | nil => simp [lead]
  | cons c x ih =>
    rw [lead]
    -- with an opening brace behind the character, the character is in front of it
    by_cases h : '\x7b' ∈ x
    · rw [if_pos h, List.append_eq_nil_iff, ih]
      constructor
      · rintro ⟨hc, hx⟩ v w heq
        cases v with
        | nil => rfl
        | cons c' v =>
          obtain ⟨rfl, rfl⟩ := List.cons.inj heq
          rw [← List.singleton_append, bare_append, hc, hx v w rfl]
          rfl
      · intro hall
        have hcons : ∀ v w, x = v ++ '\x7b' :: w → bare [c] = [] ∧ bare v = [] := by
          rintro v w rfl
          have hv := hall (c :: v) w rfl
          rwa [← List.singleton_append, bare_append, List.append_eq_nil_iff] at hv
        obtain ⟨v, w, hx⟩ := List.append_of_mem h
        exact ⟨(hcons v w hx).1, fun v w hx => (hcons v w hx).2⟩
    · rw [if_neg h, eq_self_iff_true, true_iff]
      intro v w heq
      cases v with
      | nil => rfl
      | cons c' v =>
        obtain ⟨rfl, rfl⟩ := List.cons.inj heq
        simp at h

/-! ## Commas behind inner braces -/

/-- Braces without commas between them are gone. -/
theorem expand_of_comma_not_mem (hu : '\x7b' ∉ u) (hx : '\x7d' ∉ x) (hcomma : ',' ∉ x)
    (y : List Char) : expand (u ++ '\x7b' :: (x ++ '\x7d' :: y)) = expand (u ++ x ++ y) := by
  rw [expand_braces hu hx, Text.splitAt_of_not_mem hcomma, List.flatMap_singleton]

/-- The first opening brace goes with the first closing one.  So inner braces without commas between
them are gone one after the other, and the text in front of the last of them gets in front of all
choices. -/
theorem expand_merged (hu : '\x7b' ∉ u) (hv : Closes 0 v) (hcomma : ',' ∉ v) (tail : List Char) :
    expand (u ++ '\x7b' :: (v ++ tail)) =
      expand (u ++ lead v ++ '\x7b' :: (trail v ++ tail)) := by
  -- on the closing braces that are left in the body
  induction hn : v.count '\x7d' generalizing u v with
  | zero =>
    have hclose : '\x7d' ∉ v := List.count_eq_zero.mp hn
    have hopen : '\x7b' ∉ v := (hv.of_append (v := []) hclose).1
    rw [lead_of_not_mem hopen, trail_of_not_mem hopen, bare_eq_self hopen hclose, List.append_nil]
  | succ n ih =>
    have hmem : '\x7d' ∈ v := List.count_pos_iff.mp (by omega)
    obtain ⟨x₁, x₂, y, rfl, hopen₁, hclose₁, hclose₂, hrest⟩ := hv.exists_first hmem
    simp only [List.mem_append, List.mem_cons, not_or] at hcomma
    have hstep : expand (u ++ '\x7b' :: (x₁ ++ '\x7b' :: (x₂ ++ '\x7d' :: y) ++ tail)) =
        expand (u ++ x₁ ++ '\x7b' :: (x₂ ++ y ++ tail)) := by
      have hinside : '\x7d' ∉ x₁ ++ '\x7b' :: x₂ := by simp [hclose₁, hclose₂]
      have hmerge := expand_of_comma_not_mem hu hinside (by simp [hcomma]) (y ++ tail)
      simpa using hmerge
    have hcount : (x₂ ++ y).count '\x7d' = n := by
      simp [List.count_append, List.count_eq_zero_of_not_mem hclose₁,
        List.count_eq_zero_of_not_mem hclose₂] at hn ⊢
      omega
    have hlead := lead_opening hopen₁ hclose₁ (x₂ ++ '\x7d' :: y)
    rw [(lead_closing x₂ y).1, (lead_closing x₂ y).2] at hlead
    rw [hstep, ih (by simp [hu, hopen₁]) hrest (by simp [hcomma]) hcount, hlead.1, hlead.2,
      List.append_assoc u]

/-- Braces without any inside stand for what is between their commas. -/
theorem expand_plain (hu : '\x7b' ∉ u) (hopen : '\x7b' ∉ w) (hclose : '\x7d' ∉ w)
    (after : List Char) :
    expand (u ++ '\x7b' :: (w ++ '\x7d' :: after)) =
      (Text.splitAt ',' w).flatMap fun c => (expand after).map (u ++ c ++ ·) := by
  rw [expand_braces hu hclose]
  refine List.flatMap_congr fun c hc => expand_append ?_ _
  have hchoice : '\x7b' ∉ c := fun hmem => hopen (Text.mem_of_mem_splitAt hc hmem)
  simp [hu, hchoice]

/-- A body whose commas stand behind its inner braces: what is in front of the first comma, and what
is between the commas. -/
structure Parted (body inner : List Char) (ws : List (List Char)) : Prop where
  nested : Closes 0 inner
  comma : ',' ∉ inner
  behind : ∃ last, body = inner ++ last ∧ '\x7b' ∉ last ∧ '\x7d' ∉ last ∧
    ∀ x, ',' ∉ x → Text.splitAt ',' (x ++ last) = x :: ws

/-- Such a body can be parted. -/
theorem CommasLast.exists_parted (h : CommasLast body) (hbody : Closes 0 body) :
    ∃ inner ws, Parted body inner ws ∧ (ws = [] ↔ ',' ∉ body) := by
  cases hcut : Text.cutAt? ',' body with
  | none =>
    have hcomma := Text.cutAt?_eq_none_iff.mp hcut
    refine ⟨body, [], ⟨hbody, hcomma, [], by simp, by simp, by simp, fun x hx => ?_⟩,
      by simp [hcomma]⟩
    rw [List.append_nil, Text.splitAt_of_not_mem hx]
  | some cut =>
    obtain ⟨inner, w⟩ := cut
    obtain ⟨rfl, hcomma⟩ := Text.cutAt?_eq_some_iff.mp hcut
    have hclose : '\x7d' ∉ ',' :: w := by simpa using h inner w rfl
    obtain ⟨hopen, hinner⟩ := hbody.of_append hclose
    refine ⟨inner, Text.splitAt ',' w, ⟨hinner, hcomma, _, rfl, hopen, hclose, fun x hx => ?_⟩, ?_⟩
    · rw [Text.splitAt_append, Text.splitAt_of_not_mem hx, List.singleton_append]
    · simp [Text.splitAt_ne_nil]

/-- What comes behind a comma has no braces. -/
theorem Parted.not_mem (h : Parted body inner ws) (hw : w ∈ ws) : '\x7b' ∉ w ∧ '\x7d' ∉ w := by
  obtain ⟨last, -, hopen, hclose, hsplit⟩ := h.behind
  have hmem : w ∈ Text.splitAt ',' ([] ++ last) := by
    rw [hsplit [] List.not_mem_nil]
    exact List.mem_cons_of_mem _ hw
  exact ⟨fun hb => hopen (Text.mem_of_mem_splitAt hmem hb),
    fun hb => hclose (Text.mem_of_mem_splitAt hmem hb)⟩

/-- What braces around such a body come to: in front of every choice there is what stands in front of
the last of the inner braces. -/
theorem Parted.expand_eq (h : Parted body inner ws) (after : List Char) :
    expand ('\x7b' :: (body ++ '\x7d' :: after)) =
      (bare inner :: ws.map (lead inner ++ ·)).flatMap fun a => (expand after).map (a ++ ·) := by
  obtain ⟨last, rfl, hopen, hclose, hsplit⟩ := h.behind
  obtain ⟨hlead, htrail⟩ := not_mem_lead_trail inner
  have hcomma := mt comma_mem_bare_iff.mp h.comma
  rw [← lead_append_trail, List.mem_append, not_or] at hcomma
  have hmerged := expand_merged (u := []) List.not_mem_nil h.nested h.comma (last ++ '\x7d' :: after)
  rw [List.nil_append, List.nil_append, ← List.append_assoc, ← List.append_assoc] at hmerged
  rw [hmerged, expand_plain hlead.1 (by simp [htrail, hopen]) (by simp [htrail, hclose]),
    hsplit _ hcomma.2, List.flatMap_cons, List.flatMap_cons, lead_append_trail, List.flatMap_map]

/-! ## Commas in front of a closing brace -/

/-- There is always something that a pattern expands to. -/
theorem expand_ne_nil (cs : List Char) : expand cs ≠ [] := by
  have h := expands_expand cs
  generalize expand cs = ps at h
  induction h with
  | plain => exact List.cons_ne_nil _ _
  | unclosed => exact List.cons_ne_nil _ _
  | @group _ inside _ _ _ _ _ ih =>
    obtain ⟨c, hc⟩ := List.exists_mem_of_ne_nil _ (Text.splitAt_ne_nil ',' inside)
    intro hnil
    exact ih c hc (List.flatMap_eq_nil_iff.mp hnil c hc)

/-- A piece of a text has no more braces than the text. -/
theorem count_le_of_mem_splitAt {sep c : Char} (hw : w ∈ Text.splitAt sep cs) :
    w.count c ≤ cs.count c := by
  induction cs generalizing w with
  | nil =>
    obtain rfl := List.mem_singleton.mp hw
    exact Nat.le_refl _
  | cons a cs ih =>
    have hle : cs.count c ≤ (a :: cs).count c := List.count_le_count_cons
    by_cases ha : a = sep
    · rw [Text.splitAt, if_pos ha] at hw
      obtain rfl | hw := List.mem_cons.mp hw
      · simp
      · exact (ih hw).trans hle
    · obtain ⟨v, ws, hv, heq⟩ := Text.splitAt_cons_of_ne ha cs
      rw [heq] at hw
      rw [hv] at ih
      obtain rfl | hw := List.mem_cons.mp hw
      · have := ih List.mem_cons_self
        -- the piece in front has the character besides, and so does the text
        rw [List.count_cons, List.count_cons]
        omega
      · exact (ih (List.mem_cons_of_mem _ hw)).trans hle

/-- A step uses up one brace of each kind, so closing braces that are too many are left over. -/
theorem closing_mem_of_mem_expand (h : cs.count '\x7b' < cs.count '\x7d') (hp : x ∈ expand cs) :
    '\x7d' ∈ x := by
  have hexpands := expands_expand cs
  generalize expand cs = ps at hexpands hp
  induction hexpands with
  | plain | unclosed =>
    obtain rfl := List.mem_singleton.mp hp
    exact List.count_pos_iff.mp (by omega)
  | @group before inside after results hbefore hinside _ ih =>
    obtain ⟨c, hc, hp⟩ := List.mem_flatMap.mp hp
    refine ih c hc ?_ hp
    have hopen : c.count '\x7b' ≤ inside.count '\x7b' := count_le_of_mem_splitAt hc
    have hclose : '\x7d' ∉ c := fun hmem => hinside (Text.mem_of_mem_splitAt hc hmem)
    simp [List.count_append, List.count_eq_zero_of_not_mem hbefore,
      List.count_eq_zero_of_not_mem hinside, List.count_eq_zero_of_not_mem hclose] at h ⊢
    omega

/-- Where a comma cuts a text with opening braces, some piece lacks one of these. -/
theorem exists_piece (hcomma : ',' ∈ x) (hopen : '\x7b' ∈ x) :
    ∃ c ∈ Text.splitAt ',' x, c.count '\x7b' < x.count '\x7b' := by
  obtain ⟨v, w, rfl⟩ := List.append_of_mem hcomma
  have hcount : (v ++ ',' :: w).count '\x7b' = v.count '\x7b' + w.count '\x7b' := by
    simp [List.count_append]
  have hpos : 0 < (v ++ ',' :: w).count '\x7b' := List.count_pos_iff.mpr hopen
  rw [Text.splitAt_append]
  obtain ⟨c, hc⟩ := List.exists_mem_of_ne_nil _ (Text.splitAt_ne_nil ',' v)
  obtain ⟨d, hd⟩ := List.exists_mem_of_ne_nil _ (Text.splitAt_ne_nil ',' w)
  have hcle : c.count '\x7b' ≤ v.count '\x7b' := count_le_of_mem_splitAt hc
  have hdle : d.count '\x7b' ≤ w.count '\x7b' := count_le_of_mem_splitAt hd
  -- the opening braces are not all on both sides of the comma
  by_cases hv : v.count '\x7b' < (v ++ ',' :: w).count '\x7b'
  · exact ⟨c, List.mem_append_left _ hc, by omega⟩
  · exact ⟨d, List.mem_append_right _ hd, by omega⟩

/-- Where a comma and an opening brace stand between the braces that go with each other, some choice
leaves opening ones behind.  Then a closing brace is left over. -/
theorem exists_closing_of_cut (hu : '\x7b' ∉ u) (hbody : '\x7d' ∉ body) (hcomma : ',' ∈ body)
    (hopen : '\x7b' ∈ body)
    (hcount : (u ++ '\x7b' :: (body ++ '\x7d' :: tail)).count '\x7b' ≤
      (u ++ '\x7b' :: (body ++ '\x7d' :: tail)).count '\x7d') :
    ∃ q ∈ expand (u ++ '\x7b' :: (body ++ '\x7d' :: tail)), '\x7d' ∈ q := by
  obtain ⟨c, hc, hlt⟩ := exists_piece hcomma hopen
  have hclose : '\x7d' ∉ c := fun hmem => hbody (Text.mem_of_mem_splitAt hc hmem)
  obtain ⟨q, hq⟩ := List.exists_mem_of_ne_nil _ (expand_ne_nil (u ++ c ++ tail))
  rw [expand_braces hu hbody]
  refine ⟨q, List.mem_flatMap.mpr ⟨c, hc, hq⟩, closing_mem_of_mem_expand ?_ hq⟩
  simp [List.count_append, List.count_eq_zero_of_not_mem hu, List.count_eq_zero_of_not_mem hbody,
    List.count_eq_zero_of_not_mem hclose] at hcount ⊢
  omega

/-- A character that does not stand in front stands behind. -/
theorem exists_append_of_not_mem {c : Char} (hx : c ∉ x) (h : x ++ y = v ++ c :: w) :
    ∃ y₁, y = y₁ ++ c :: w := by
  obtain ⟨as, rfl, hy⟩ | ⟨bs, rfl, hbs⟩ := List.append_eq_append_iff.mp h
  · exact ⟨as, hy⟩
  · cases bs with
    | nil => exact ⟨[], hbs.symm⟩
    | cons b bs =>
      obtain ⟨rfl, -⟩ := List.cons.inj hbs
      simp at hx

/-- A comma in front of a closing brace inside is taken to end a choice of the outer braces as soon as
it stands in front of the first closing one.  Then a closing brace is left over. -/
theorem exists_closing_mem_expand (hu : '\x7b' ∉ u) (hv : Closes 0 v)
    (hcomma : ∃ v₁ v₂, v = v₁ ++ ',' :: v₂ ∧ '\x7d' ∈ v₂)
    (hcount : (u ++ '\x7b' :: (v ++ tail)).count '\x7b' ≤
      (u ++ '\x7b' :: (v ++ tail)).count '\x7d') :
    ∃ q ∈ expand (u ++ '\x7b' :: (v ++ tail)), '\x7d' ∈ q := by
  induction hn : v.count '\x7d' generalizing u v with
  | zero =>
    obtain ⟨v₁, v₂, rfl, hmem⟩ := hcomma
    exact absurd (List.mem_append_right _ (List.mem_cons_of_mem _ hmem)) (List.count_eq_zero.mp hn)
  | succ n ih =>
    have hmem : '\x7d' ∈ v := List.count_pos_iff.mp (by omega)
    obtain ⟨x₁, x₂, y, rfl, hopen₁, hclose₁, hclose₂, hrest⟩ := hv.exists_first hmem
    have hinside : '\x7d' ∉ x₁ ++ '\x7b' :: x₂ := by simp [hclose₁, hclose₂]
    have heq : u ++ '\x7b' :: (x₁ ++ '\x7b' :: (x₂ ++ '\x7d' :: y) ++ tail) =
        u ++ '\x7b' :: (x₁ ++ '\x7b' :: x₂ ++ '\x7d' :: (y ++ tail)) := by simp
    rw [heq] at hcount ⊢
    by_cases hcut : ',' ∈ x₁ ++ '\x7b' :: x₂
    · exact exists_closing_of_cut hu hinside hcut (by simp) hcount
    · -- the first two braces are gone, and the comma stands further behind
      obtain ⟨v₁, v₂, hv₁, hmem₂⟩ := hcomma
      rw [expand_of_comma_not_mem hu hinside hcut]
      have hnext : u ++ (x₁ ++ '\x7b' :: x₂) ++ (y ++ tail) =
          (u ++ x₁) ++ '\x7b' :: (x₂ ++ y ++ tail) := by simp
      rw [hnext]
      refine ih (by simp [hu, hopen₁]) hrest ?_ ?_ ?_
      · have hbehind : x₁ ++ '\x7b' :: (x₂ ++ '\x7d' :: y) =
            (x₁ ++ '\x7b' :: x₂ ++ ['\x7d']) ++ y := by simp
        obtain ⟨y₁, rfl⟩ := exists_append_of_not_mem (by simpa using hcut) (hbehind.symm.trans hv₁)
        exact ⟨x₂ ++ y₁, v₂, (List.append_assoc ..).symm, hmem₂⟩
      · simp [List.count_append, List.count_eq_zero_of_not_mem hu,
          List.count_eq_zero_of_not_mem hopen₁, List.count_eq_zero_of_not_mem hclose₁,
          List.count_eq_zero_of_not_mem hclose₂] at hcount ⊢
        omega
      · simp [List.count_append, List.count_eq_zero_of_not_mem hclose₁,
          List.count_eq_zero_of_not_mem hclose₂] at hn ⊢
        omega

/-! ## Which patterns are expanded as they are nested -/

/-- All commas stand behind the inner braces, and if there are any, nothing but braces stands in front
of inner braces. -/
structure Kept (body : List Char) : Prop where
  commasLast : CommasLast body
  lead : ',' ∈ body → ∀ v w, body = v ++ '\x7b' :: w → bare v = []

/-- With all commas behind the inner braces, the choices stand for what is between the commas. -/
theorem Parted.alternatives_eq (h : Parted p.text inner ws) (hlast : CommasLast p.text) :
    p.choices.flatMap Nested.alternatives = bare inner :: ws := by
  obtain ⟨last, heq, hopen, hclose, hsplit⟩ := h.behind
  have hbare : Text.splitAt ',' (bare p.text) = bare inner :: ws := by
    rw [heq, bare_append, bare_eq_self hopen hclose, hsplit _ (mt comma_mem_bare_iff.mp h.comma)]
  obtain ⟨hfirst, hothers⟩ := Nested.alternatives_split hlast hbare
  rw [Nested.choices, List.flatMap_cons, hfirst, hothers, List.singleton_append]

/-- Then expanding changes none of them exactly if there is nothing to put in front. -/
theorem Parted.kept_iff (h : Parted body inner ws) (hlast : CommasLast body)
    (hws : ws = [] ↔ ',' ∉ body) : Kept body ↔ ws.map (lead inner ++ ·) = ws := by
  obtain ⟨last, rfl, hopen, -⟩ := h.behind
  have hkept : Kept (inner ++ last) ↔ (',' ∈ inner ++ last → lead inner = []) := by
    rw [← lead_append_of_not_mem hopen inner, lead_eq_nil_iff]
    exact ⟨Kept.lead, fun h => ⟨hlast, h⟩⟩
  rw [hkept]
  cases ws with
  | nil =>
    have hcomma := hws.mp rfl
    simp [hcomma]
  | cons w ws =>
    -- there are further choices, and so there is a comma
    have hcomma : ',' ∈ inner ++ last := by
      by_contra hcomma
      exact List.cons_ne_nil _ _ (hws.mpr hcomma)
    constructor
    · intro hlead
      rw [hlead hcomma]
      simp
    · intro heq _
      exact List.append_left_eq_self.mp (List.cons.inj heq).1

/-- Texts that are put in front of others, one after the other, can be told from the result. -/
theorem flatMap_append_inj {a : List Char} {as bs es fs : List (List Char)} (hne : es ≠ [])
    (hlen : es.length = fs.length) (hlen' : as.length = bs.length) :
    ((a :: as).flatMap fun a => es.map (a ++ ·)) = ((a :: bs).flatMap fun b => fs.map (b ++ ·)) ↔
      es = fs ∧ as = bs := by
  refine ⟨fun h => ?_, by rintro ⟨rfl, rfl⟩; rfl⟩
  rw [List.flatMap_cons, List.flatMap_cons] at h
  -- equally many patterns start with the first text on both sides, so they are cut off together
  obtain ⟨hfirst, hrest⟩ := List.append_inj h (by rw [List.length_map, List.length_map, hlen])
  obtain rfl : es = fs :=
    List.map_injective_iff.mpr (fun _ _ => List.append_cancel_left) hfirst
  refine ⟨rfl, ?_⟩
  clear h hfirst hlen
  induction as generalizing bs with
  | nil => exact (List.length_eq_zero_iff.mp hlen'.symm).symm
  | cons b as ih =>
    cases bs with
    | nil => cases hlen'
    | cons b' bs =>
      rw [List.flatMap_cons, List.flatMap_cons] at hrest
      obtain ⟨hb, hrest⟩ := List.append_inj hrest (by rw [List.length_map, List.length_map])
      -- the first pattern of each run tells the text in front of it
      obtain ⟨e, es, rfl⟩ := List.exists_cons_of_ne_nil hne
      rw [List.map_cons, List.map_cons, List.cons.injEq] at hb
      rw [List.append_cancel_right hb.1, ih (Nat.succ.inj hlen') hrest]

/-- A character in front of a pattern stays in front. -/
theorem expand_text_char {c : Char} (hc : c ≠ '\x7b' ∧ c ≠ '\x7d') (rest : Nested) :
    expand (Nested.char c hc rest).text = (expand rest.text).map (c :: ·) :=
  expand_append (u := [c]) (by simpa using Ne.symm hc.1) rest.text

/-- Where all commas stand behind the inner braces, expanding leaves no braces and gives as many
patterns as nesting asks for, and the same exactly if nothing is put in front of choices. -/
theorem expand_text (p : Nested) (h : ∀ b ∈ p.bodies, CommasLast b.text) :
    (∀ q ∈ expand p.text, '\x7b' ∉ q ∧ '\x7d' ∉ q) ∧
      (expand p.text).length = p.alternatives.length ∧
      (expand p.text = p.alternatives ↔ ∀ b ∈ p.bodies, Kept b.text) := by
  induction p with
  | nil =>
    rw [Nested.text, expand_of_not_mem List.not_mem_nil, Nested.alternatives]
    simp [Nested.bodies]
  | char c hc rest ih =>
    obtain ⟨hplain, hlen, hiff⟩ := ih h
    rw [expand_text_char, Nested.alternatives, List.length_map, List.length_map]
    refine ⟨?_, hlen, ?_⟩
    · intro _ hmem
      obtain ⟨q, hq, rfl⟩ := List.mem_map.mp hmem
      obtain ⟨hopen, hclose⟩ := hplain q hq
      simp [Ne.symm hc.1, Ne.symm hc.2, hopen, hclose]
    · rw [(List.map_injective_iff.mpr fun _ _ => List.tail_eq_of_cons_eq).eq_iff, hiff]
      rfl
  | group inside rest _ ih =>
    rw [Nested.bodies, List.forall_mem_cons] at h
    obtain ⟨hinside, hrest⟩ := h
    obtain ⟨hplain, hlen, hiff⟩ := ih hrest
    -- the braces are expanded from the inside, with what stood around them in front of each choice
    obtain ⟨inner, ws, hparted, hws⟩ := hinside.exists_parted (closes_zero_iff.mpr ⟨inside, rfl⟩)
    rw [Nested.text, hparted.expand_eq, Nested.alternatives_group, hparted.alternatives_eq hinside]
    refine ⟨?_, ?_, ?_⟩
    · intro _ hmem
      obtain ⟨a, ha, hmem⟩ := List.mem_flatMap.mp hmem
      obtain ⟨q, hq, rfl⟩ := List.mem_map.mp hmem
      -- what is put in front is bare, and the pieces are cut where no brace is left
      have hfront : '\x7b' ∉ a ∧ '\x7d' ∉ a := by
        obtain rfl | ha := List.mem_cons.mp ha
        · exact not_mem_bare inner
        · obtain ⟨w, hw, rfl⟩ := List.mem_map.mp ha
          simp [(not_mem_lead_trail inner).1, hparted.not_mem hw]
      simp [hfront, hplain q hq]
    · simp [List.length_flatMap, Function.comp_def, hlen]
    · rw [flatMap_append_inj (expand_ne_nil _) hlen (List.length_map ..), hiff, Nested.bodies,
        List.forall_mem_cons, hparted.kept_iff hinside hws, and_comm]

/-- Where a comma stands in front of a closing brace inside, braces are left over. -/
theorem exists_brace_mem_expand (p : Nested) (h : ¬ ∀ b ∈ p.bodies, CommasLast b.text) :
    ∃ q ∈ expand p.text, '\x7d' ∈ q := by
  induction p with
  | nil => simp [Nested.bodies] at h
  | char c hc rest ih =>
    obtain ⟨q, hq, hmem⟩ := ih h
    rw [expand_text_char]
    exact ⟨c :: q, List.mem_map_of_mem hq, List.mem_cons_of_mem _ hmem⟩
  | group inside rest _ ih =>
    have hnested : Closes 0 inside.text := closes_zero_iff.mpr ⟨inside, rfl⟩
    -- the comma is further behind, or it is in these braces
    by_cases hinside : CommasLast inside.text
    · have hrest : ¬ ∀ b ∈ rest.bodies, CommasLast b.text := fun hrest =>
        h (List.forall_mem_cons.mpr ⟨hinside, hrest⟩)
      obtain ⟨q, hq, hmem⟩ := ih hrest
      obtain ⟨inner, ws, hparted, -⟩ := hinside.exists_parted hnested
      rw [Nested.text, hparted.expand_eq, List.flatMap_cons]
      exact ⟨bare inner ++ q, List.mem_append_left _ (List.mem_map_of_mem hq),
        List.mem_append_right _ hmem⟩
    · simp only [CommasLast, not_forall, not_not] at hinside
      obtain ⟨v, w, heq, hmem⟩ := hinside
      have hcount := (closes_zero_iff.mpr ⟨Nested.group inside rest, rfl⟩).count
      exact exists_closing_mem_expand (u := []) List.not_mem_nil hnested ⟨v, w, heq, hmem⟩ hcount.ge

/-- The patterns with properly nested braces are the texts of trees.  Expanding one leaves no braces
exactly if, in all outermost braces, all commas stand behind the inner braces.  It gives the patterns
that nesting asks for exactly if, besides, nothing but braces stands in front of inner ones where
there are commas. -/
theorem expandBraces_nested (cs : List Char) :
    (Closes 0 cs ↔ ∃ p : Nested, p.text = cs) ∧
    ∀ p : Nested, p.text = cs →
      ((∀ q ∈ expandBraces (String.ofList cs), '\x7b' ∉ q.toList ∧ '\x7d' ∉ q.toList) ↔
        ∀ b ∈ p.bodies, CommasLast b.text) ∧
      (expandBraces (String.ofList cs) = p.alternatives.map String.ofList ↔
        ∀ b ∈ p.bodies, Kept b.text) := by
  refine ⟨closes_zero_iff, ?_⟩
  rintro p rfl
  have hchars : expandBraces (String.ofList p.text) = (expand p.text).map String.ofList := by
    rw [expandBraces, String.toList_ofList]
    rfl
  have hplain : (∀ q ∈ expandBraces (String.ofList p.text),
      '\x7b' ∉ q.toList ∧ '\x7d' ∉ q.toList) ↔ ∀ b ∈ p.bodies, CommasLast b.text := by
    rw [hchars, List.forall_mem_map]
    simp only [String.toList_ofList]
    -- if some comma were in front of a closing brace, a brace would be left over
    constructor
    · intro hplain
      by_contra h
      obtain ⟨q, hq, hmem⟩ := exists_brace_mem_expand p h
      exact (hplain q hq).2 hmem
    · exact fun h => (expand_text p h).1
  refine ⟨hplain, ?_⟩
  rw [hchars, (List.map_injective_iff.mpr fun _ _ => String.ofList_injective).eq_iff]
  constructor
  · intro heq
    have hlast : ∀ b ∈ p.bodies, CommasLast b.text := by
      by_contra h
      obtain ⟨q, hq, hmem⟩ := exists_brace_mem_expand p h
      exact (Nested.not_mem_of_mem_alternatives (heq ▸ hq)).2 hmem
    exact (expand_text p hlast).2.2.mp heq
  · exact fun h => (expand_text p fun b hb => (h b hb).commasLast).2.2.mpr h

/-- A pattern with a choice between a letter and two others in braces of their own. -/
def nestedChoice : Nested :=
  .group (.char 'a' (by decide) (.char ',' (by decide)
    (.group (.char 'b' (by decide) (.char ',' (by decide) (.char 'c' (by decide) .nil))) .nil))) .nil

/-- The comma between the choices stands in front of the inner closing brace, which is taken for the
outer one.  So braces are left in the patterns, where nesting asks for the three letters. -/
theorem nested_braces_left :
    String.ofList nestedChoice.text = "\x7ba,\x7bb,c\x7d\x7d" ∧
      expandBraces "\x7ba,\x7bb,c\x7d\x7d" = ["a\x7d", "b", "c\x7d"] ∧
      nestedChoice.alternatives.map String.ofList = ["a", "b", "c"] := by
  refine ⟨by decide, by decide, ?_⟩
  simp [nestedChoice, Nested.alternatives_group, Nested.alternatives, Nested.choices, Nested.split]

-- an inner choice may stand in front of the others
example : expandBraces "\x7b\x7ba\x7d,b\x7d" = ["a", "b"] := by decide

end Promptwright.Braces
