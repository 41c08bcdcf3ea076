import Mathlib.Data.List.Forall2
import Promptwright.Proofs.Prompt.Braces

/-!
# What alternatives expand to

Every replacement of braces uses up a closing one, so expanding comes to an end, whatever the
pattern.  What it comes to is a product if no braces stand inside others: the texts with one choice
in the place of each pair of braces, those with the first choice in the first braces in front.

## Key results

- `expands_iff`: expanding without a bound on the number of steps ends, with the same patterns
- `expand_append`: a text without opening braces stays in front
- `expandBraces_product`: braces beside each other
-/

namespace Promptwright.Braces

variable {p t u : List Char} {ps : List (List Char)} {gs : List (List (List Char) × List Char)}
  {ks : List Nat}

/-! ## Expanding without a bound -/

/-- What expanding a pattern comes to, however many steps it takes. -/
inductive Expands : List Char → List (List Char) → Prop
  /-- There are no braces. -/
  | plain {p : List Char} (h : '\x7b' ∉ p) : Expands p [p]
  /-- The first brace is not closed. -/
  | unclosed {before inside : List Char} (hbefore : '\x7b' ∉ before) (hinside : '\x7d' ∉ inside) :
      Expands (before ++ '\x7b' :: inside) [before ++ '\x7b' :: inside]
  /-- Every choice is put in the place of the first braces, and the result expanded. -/
  | group {before inside after : List Char} {results : List Char → List (List Char)}
      (hbefore : '\x7b' ∉ before) (hinside : '\x7d' ∉ inside)
      (h : ∀ c ∈ Text.splitAt ',' inside, Expands (before ++ c ++ after) (results c)) :
      Expands (before ++ '\x7b' :: (inside ++ '\x7d' :: after))
        ((Text.splitAt ',' inside).flatMap results)

/-- Whatever it comes to, the bound on the steps is great enough for it. -/
theorem Expands.eq_expand (h : Expands p ps) : ps = expand p := by
  induction h with
  | plain h => rw [expand_of_not_mem h]
  | unclosed hbefore hinside => rw [expand_of_unclosed hbefore hinside]
  | group hbefore hinside _ ih =>
    rw [expand_braces hbefore hinside]
    exact List.flatMap_congr ih

/-- It always comes to an end, since there are fewer closing braces after each step. -/
theorem expands_expand (p : List Char) : Expands p (expand p) := by
  induction hn : p.count '\x7d' using Nat.strong_induction_on generalizing p with
  | _ n ih =>
    cases hopen : Text.cutAt? '\x7b' p with
    | none =>
      have hp := Text.cutAt?_eq_none_iff.mp hopen
      rw [expand_of_not_mem hp]
      exact .plain hp
    | some cut =>
      obtain ⟨before, rest⟩ := cut
      obtain ⟨rfl, hbefore⟩ := Text.cutAt?_eq_some_iff.mp hopen
      cases hclose : Text.cutAt? '\x7d' rest with
      | none =>
        have hrest := Text.cutAt?_eq_none_iff.mp hclose
        rw [expand_of_unclosed hbefore hrest]
        exact .unclosed hbefore hrest
      | some cut =>
        obtain ⟨inside, after⟩ := cut
        obtain ⟨rfl, hinside⟩ := Text.cutAt?_eq_some_iff.mp hclose
        rw [expand_braces hbefore hinside]
        refine .group hbefore hinside fun c hc => ih _ ?_ _ rfl
        -- the choice has no closing brace, so the one behind it is gone
        have hchoice : '\x7d' ∉ c := fun hmem => hinside (Text.mem_of_mem_splitAt hc hmem)
        rw [← hn]
        simp [List.count_append, List.count_eq_zero_of_not_mem hinside,
          List.count_eq_zero_of_not_mem hchoice]

/-- Expanding a pattern without a bound ends, and gives what it gives with the bound. -/
theorem expands_iff : Expands p ps ↔ ps = expand p := by
  refine ⟨Expands.eq_expand, ?_⟩
  rintro rfl
  exact expands_expand p

/-- A text without opening braces stays in front of whatever the rest comes to. -/
theorem expand_append (hu : '\x7b' ∉ u) (p : List Char) :
    expand (u ++ p) = (expand p).map (u ++ ·) := by
  have h := expands_expand p
  generalize expand p = ps at h
  induction h with
  | @plain p hp => rw [expand_of_not_mem (by simp [hu, hp]), List.map_singleton]
  | @unclosed before inside hbefore hinside =>
    rw [← List.append_assoc, expand_of_unclosed (by simp [hu, hbefore]) hinside, List.append_assoc,
      List.map_singleton]
  | @group before inside after results hbefore hinside _ ih =>
    rw [← List.append_assoc, expand_braces (by simp [hu, hbefore]) hinside, List.map_flatMap]
    refine List.flatMap_congr fun c hc => ?_
    rw [← ih c hc]
    simp only [List.append_assoc]

/-! ## Braces beside each other -/

/-- A text and several braces with texts behind them, without further braces in the choices. -/
structure Flat (t : List Char) (gs : List (List (List Char) × List Char)) : Prop where
  text : '\x7b' ∉ t
  nonempty : ∀ g ∈ gs, g.1 ≠ []
  plain : ∀ g ∈ gs, ∀ c ∈ g.1, ',' ∉ c ∧ '\x7b' ∉ c ∧ '\x7d' ∉ c
  opening : ∀ g ∈ gs, '\x7b' ∉ g.2

/-- The text with the choice at some position in the place of each pair of braces. -/
inductive Fills : List Char → List (List (List Char) × List Char) → List Nat → List Char → Prop
  | nil {t : List Char} : Fills t [] [] t
  | cons {t c t' p : List Char} {choices : List (List Char)}
      {gs : List (List (List Char) × List Char)} {k : Nat} {ks : List Nat}
      (hc : choices[k]? = some c) (h : Fills t' gs ks p) :
      Fills t ((choices, t') :: gs) (k :: ks) (t ++ c ++ p)

/-- The positions of the choices, one for each pair of braces.  The last one changes fastest. -/
def positions : List (List (List Char) × List Char) → List (List Nat)
  | [] => [[]]
  | g :: gs => (List.range g.1.length).flatMap fun k => (positions gs).map (k :: ·)

/-- They are in lexicographic order, each once. -/
theorem pairwise_positions (gs : List (List (List Char) × List Char)) :
    (positions gs).Pairwise (· < ·) := by
  induction gs with
  | nil => exact List.pairwise_singleton _ _
  | cons g gs ih =>
    rw [positions, List.pairwise_flatMap]
    constructor
    · intro k _
      rw [List.pairwise_map]
      exact ih.imp fun h => List.Lex.cons h
    · refine List.pairwise_lt_range.imp fun hlt ks hks ks' hks' => ?_
      obtain ⟨_, -, rfl⟩ := List.mem_map.mp hks
      obtain ⟨_, -, rfl⟩ := List.mem_map.mp hks'
      exact List.Lex.rel hlt

/-- They are all positions where there are choices. -/
theorem mem_positions_iff (t : List Char) : ks ∈ positions gs ↔ ∃ p, Fills t gs ks p := by
  induction gs generalizing t ks with
  | nil =>
    rw [positions, List.mem_singleton]
    constructor
    · rintro rfl
      exact ⟨t, .nil⟩
    · rintro ⟨_, ⟨⟩⟩
      rfl
  -- a position is a choice for the first braces and a position for the others
  | cons g gs ih =>
    simp only [positions, List.mem_flatMap, List.mem_range, List.mem_map]
    constructor
    · rintro ⟨k, hk, ks, hks, rfl⟩
      obtain ⟨p, hp⟩ := (ih g.2).mp hks
      exact ⟨_, .cons (List.getElem?_eq_getElem hk) hp⟩
    · rintro ⟨_, h⟩
      cases h with
      | cons hc h => exact ⟨_, (List.getElem?_eq_some_iff.mp hc).1, _, (ih _).mpr ⟨_, h⟩, rfl⟩

/-- Every choice stands at its position. -/
theorem forall₂_range (choices : List (List Char)) :
    List.Forall₂ (fun k c => choices[k]? = some c) (List.range choices.length) choices := by
  rw [List.forall₂_iff_get]
  exact ⟨List.length_range, fun k _ hk => by simp [hk]⟩

/-- With a choice in the place of the first braces, the others are left. -/
theorem expand_flat_cons {g : List (List Char) × List Char} (h : Flat t (g :: gs)) :
    expand (flat t (g :: gs)) =
      g.1.flatMap fun c => (expand (flat g.2 gs)).map (t ++ c ++ ·) := by
  have hplain := h.plain g List.mem_cons_self
  have hfirst : First t g.1 :=
    ⟨h.text, h.nonempty g List.mem_cons_self, fun c hc => (hplain c hc).1,
      fun c hc => (hplain c hc).2.2⟩
  rw [flat, expand_group hfirst]
  refine List.flatMap_congr fun c hc => expand_append ?_ _
  simp [h.text, (hplain c hc).2.1]

/-- What is left is flat as well. -/
theorem Flat.tail {g : List (List Char) × List Char} (h : Flat t (g :: gs)) : Flat g.2 gs where
  text := h.opening g List.mem_cons_self
  nonempty g' hg' := h.nonempty g' (List.mem_cons_of_mem _ hg')
  plain g' hg' := h.plain g' (List.mem_cons_of_mem _ hg')
  opening g' hg' := h.opening g' (List.mem_cons_of_mem _ hg')

/-- The pattern expands to the texts with the choices at all positions. -/
theorem forall₂_fills (h : Flat t gs) :
    List.Forall₂ (Fills t gs) (positions gs) (expand (flat t gs)) := by
  -- on the braces: the first choice varies slowest, since the others are expanded behind each of them
  induction gs generalizing t with
  | nil =>
    rw [positions, flat, expand_of_not_mem h.text]
    exact .cons .nil .nil
  | cons g gs ih =>
    rw [positions, expand_flat_cons h]
    refine List.rel_flatMap (forall₂_range g.1) fun k c hc => ?_
    rw [List.forall₂_map_left_iff, List.forall₂_map_right_iff]
    exact (ih h.tail).imp fun _ _ hp => .cons hc hp

/-- Expanding ends on every pattern.  Where no braces stand inside others, it gives the texts with
one choice in the place of each pair of braces, one for all positions of the choices and in the
lexicographic order of these. -/
theorem expandBraces_product :
    (∀ (pattern : String) (ps : List (List Char)),
      Expands pattern.toList ps ↔ ps = (expandBraces pattern).map String.toList) ∧
    ∀ (t : List Char) (gs : List (List (List Char) × List Char)), Flat t gs →
      (positions gs).Pairwise (· < ·) ∧ (∀ ks, ks ∈ positions gs ↔ ∃ p, Fills t gs ks p) ∧
        List.Forall₂ (Fills t gs) (positions gs)
          ((expandBraces (String.ofList (flat t gs))).map String.toList) := by
  have hchars : ∀ pattern : String,
      (expandBraces pattern).map String.toList = expand pattern.toList := by
    intro pattern
    rw [expandBraces, List.map_map]
    exact List.map_id'' (fun _ => String.toList_ofList) _
  refine ⟨fun pattern ps => ?_,
    fun t gs h => ⟨pairwise_positions gs, fun ks => mem_positions_iff t, ?_⟩⟩
  · rw [hchars, expands_iff]
  · rw [hchars, String.toList_ofList]
    exact forall₂_fills h

/-- Two pairs of braces behind a stray closing one.  A choice may be empty, or be there twice. -/
def twoPairs : List (List (List Char) × List Char) :=
  [([['x'], []], []), ([['y'], ['y']], ['b'])]

/-- The combinations are there in their order, the repeated ones included. -/
theorem expandBraces_product_twoPairs :
    Flat ['a', '\x7d'] twoPairs ∧
      String.ofList (flat ['a', '\x7d'] twoPairs) = "a\x7d\x7bx,\x7d\x7by,y\x7db" ∧
      expandBraces "a\x7d\x7bx,\x7d\x7by,y\x7db" = ["a\x7dxyb", "a\x7dxyb", "a\x7dyb", "a\x7dyb"] ∧
      positions twoPairs = [[0, 0], [0, 1], [1, 0], [1, 1]] ∧
      List.Forall₂ (Fills ['a', '\x7d'] twoPairs) (positions twoPairs)
        ((expandBraces (String.ofList (flat ['a', '\x7d'] twoPairs))).map String.toList) := by
  have hflat : Flat ['a', '\x7d'] twoPairs := by
    constructor <;> decide
  exact ⟨hflat, by decide, by decide, by decide, (expandBraces_product.2 _ _ hflat).2.2⟩

end Promptwright.Braces
