import Promptwright.Proofs.Text.Labels

/-!
# Where a word is cut at its humps

The humps of a word make the word again, and none of them is empty.  So they are known from the
places where one ends and the next one starts, and these are the places in the word that look like a
hump: at a capital behind a small letter or a digit, and at the last of several capitals if a small
letter follows.  A piece on its own shows no more of them than it did in the word, since all that is
gone is what stood around it, and a letter that follows is only ever a reason for a cut.  So no piece
is cut again.

## Key results

- `eq_of_cutAt`: pieces are known from the text they make and its cuts
- `cutAt_humps_iff`: a word is cut where it looks like a hump
- `humps_eq_iff`: the pieces that a word has
- `humps_of_mem_humps`: humps are not cut again
-/

namespace Promptwright.Identifiers

variable {cs w : List Char} {us vs ws : List (List Char)} {i : Nat}

/-! ## Cuts -/

/-- Whether a text in pieces is cut behind its first `i` characters: the first few pieces, but not
all of them, are made of these. -/
def CutAt (ws : List (List Char)) (i : Nat) : Prop :=
  ∃ k < ws.length, 0 < k ∧ (ws.take k).flatten.length = i

instance : Decidable (CutAt ws i) :=
  inferInstanceAs (Decidable (∃ k < ws.length, 0 < k ∧ (ws.take k).flatten.length = i))

/-- The first cut is at the end of the first piece, and the others are in what follows. -/
theorem cutAt_cons : CutAt (w :: ws) i ↔
    ws ≠ [] ∧ i = w.length ∨ ∃ j, CutAt ws j ∧ i = w.length + j := by
  constructor
  · rintro ⟨k, hk, hpos, rfl⟩
    obtain ⟨k, rfl⟩ := Nat.exists_eq_succ_of_ne_zero (Nat.ne_of_gt hpos)
    have hk : k < ws.length := by simpa using hk
    -- the first piece alone, or some of what follows as well
    by_cases hzero : k = 0
    · subst hzero
      exact .inl ⟨List.length_pos_iff.mp hk, by simp⟩
    · exact .inr ⟨_, ⟨k, hk, Nat.pos_of_ne_zero hzero, rfl⟩, by simp⟩
  · rintro (⟨hne, rfl⟩ | ⟨j, ⟨k, hk, hpos, rfl⟩, rfl⟩)
    · exact ⟨1, by simpa using List.length_pos_iff.mpr hne, by simp⟩
    · exact ⟨k + 1, by simpa using hk, by simp⟩

/-- A text in no pieces has no cuts. -/
theorem not_cutAt_nil : ¬CutAt [] i := by
  rintro ⟨k, hk, -⟩
  simp at hk

/-- A text in one piece has no cuts. -/
theorem not_cutAt_singleton : ¬CutAt [w] i := by
  simp [cutAt_cons, not_cutAt_nil]

/-- There is no cut in front of a text. -/
theorem CutAt.pos (h : CutAt ws i) (hws : ∀ w ∈ ws, w ≠ []) : 0 < i := by
  cases ws with
  | nil => exact absurd h not_cutAt_nil
  | cons w ws =>
    have hlength := List.length_pos_iff.mpr (hws w List.mem_cons_self)
    obtain ⟨-, rfl⟩ | ⟨j, -, rfl⟩ := cutAt_cons.mp h
    · exact hlength
    · exact Nat.add_pos_left hlength j

/-- Behind the first piece, the cuts are those of what follows. -/
theorem cutAt_cons_add (hi : 0 < i) : CutAt (w :: ws) (w.length + i) ↔ CutAt ws i := by
  rw [cutAt_cons]
  constructor
  · rintro (⟨-, h⟩ | ⟨j, hj, h⟩)
    · omega
    · rwa [Nat.add_left_cancel h]
  · exact fun h => .inr ⟨i, h, rfl⟩

/-- Behind several pieces too. -/
theorem cutAt_append (hi : 0 < i) : CutAt (us ++ ws) (us.flatten.length + i) ↔ CutAt ws i := by
  induction us with
  | nil => simp
  | cons u us ih =>
    rw [List.cons_append, List.flatten_cons, List.length_append, Nat.add_assoc,
      cutAt_cons_add (by omega), ih]

/-- Inside a piece there is no cut. -/
theorem not_cutAt_inside (hi : 0 < i) (hlt : i < w.length) :
    ¬CutAt (us ++ w :: vs) (us.flatten.length + i) := by
  rw [cutAt_append hi, cutAt_cons]
  rintro (⟨-, h⟩ | ⟨j, -, h⟩) <;> omega

/-- A character in front of the first piece moves all cuts on. -/
theorem cutAt_consHead {b : Char} (hne : ws ≠ []) :
    CutAt (Text.consHead b ws) (i + 1) ↔ CutAt ws i := by
  obtain ⟨w, ws, rfl⟩ := List.exists_cons_of_ne_nil hne
  rw [Text.consHead, cutAt_cons, cutAt_cons]
  simp only [List.length_cons, Nat.add_right_comm w.length 1, Nat.add_right_cancel_iff]

/-! ## Pieces and their cuts -/

/-- If a text is cut in other pieces wherever these are cut, the first piece of the others is no
longer. -/
theorem length_le_of_cutAt {v : List Char} (hflatten : (w :: ws).flatten = (v :: vs).flatten)
    (hcut : ∀ i, CutAt (w :: ws) i → CutAt (v :: vs) i) : v.length ≤ w.length := by
  by_cases hne : ws = []
  · -- the first piece is the whole text
    subst hne
    have hlength := congrArg List.length hflatten
    simp only [List.flatten_cons, List.flatten_nil, List.append_nil, List.length_append] at hlength
    omega
  · -- the first piece ends at a cut, and the other text has no cut in front of its own first piece
    obtain ⟨-, h⟩ | ⟨j, -, h⟩ := cutAt_cons.mp (hcut _ (cutAt_cons.mpr (.inl ⟨hne, rfl⟩)))
    · exact Nat.le_of_eq h.symm
    · omega

/-- Pieces are known from the text they make and its cuts. -/
theorem eq_of_cutAt (hws : ∀ w ∈ ws, w ≠ []) (hvs : ∀ v ∈ vs, v ≠ [])
    (hflatten : ws.flatten = vs.flatten) (hcut : ∀ i, CutAt ws i ↔ CutAt vs i) : ws = vs := by
  induction ws generalizing vs with
  | nil =>
    cases vs with
    | nil => rfl
    | cons v vs => simp [hvs v List.mem_cons_self] at hflatten
  | cons w ws ih =>
    cases vs with
    | nil => simp [hws w List.mem_cons_self] at hflatten
    | cons v vs =>
      have hws' := (List.forall_mem_cons.mp hws).2
      have hvs' := (List.forall_mem_cons.mp hvs).2
      -- both first pieces end at the first cut
      have hlength : w.length = v.length :=
        Nat.le_antisymm (length_le_of_cutAt hflatten.symm fun i => (hcut i).mpr)
          (length_le_of_cutAt hflatten fun i => (hcut i).mp)
      obtain ⟨rfl, hrest⟩ := List.append_inj hflatten hlength
      rw [ih hws' hvs' hrest]
      intro i
      -- no piece is empty, so place 0 of the rest is no cut, although one may be there in the whole
      by_cases hi : 0 < i
      · rw [← cutAt_cons_add hi, hcut, cutAt_cons_add hi]
      · exact iff_of_false (fun h => hi (h.pos hws')) (fun h => hi (h.pos hvs'))

/-! ## Places that look like a hump -/

/-- Whether a new word starts at place `i` of a word: at a capital behind a small letter or a digit,
or between a capital and a small letter. -/
def HumpAt (cs : List Char) (i : Nat) : Prop :=
  0 < i ∧ cs[i]?.any Char.isUpper ∧
    (cs[i - 1]?.any Char.isLower ∨ cs[i - 1]?.any Char.isDigit ∨
      cs[i - 1]?.any Char.isUpper ∧ cs[i + 1]?.any Char.isLower)

instance : Decidable (HumpAt cs i) := inferInstanceAs (Decidable (_ ∧ _))

/-- Such a place is inside the word. -/
theorem HumpAt.lt_length (h : HumpAt cs i) : i < cs.length := by
  obtain ⟨c, hc, -⟩ := (Option.any_eq_true _ _).mp h.2.1
  exact (List.getElem?_eq_some_iff.mp hc).1

/-- What follows a word takes away nothing that was seen in it. -/
theorem HumpAt.append (h : HumpAt cs i) (ds : List Char) : HumpAt (cs ++ ds) i := by
  have hany : ∀ {p : Char → Bool} {j : Nat}, cs[j]?.any p → (cs ++ ds)[j]?.any p := by
    intro p j hj
    obtain ⟨c, hc, hp⟩ := (Option.any_eq_true _ _).mp hj
    rw [List.getElem?_append_left (List.getElem?_eq_some_iff.mp hc).1, hc]
    exact hp
  obtain ⟨hpos, hupper, haround⟩ := h
  exact ⟨hpos, hany hupper, haround.imp hany (.imp hany (.imp hany hany))⟩

/-- What stands in front of a word moves its places on. -/
theorem HumpAt.prepend (h : HumpAt cs i) (ds : List Char) : HumpAt (ds ++ cs) (ds.length + i) := by
  obtain ⟨hpos, hupper, haround⟩ := h
  have hget : ∀ j, (ds ++ cs)[ds.length + j]? = cs[j]? := fun j => by
    rw [List.getElem?_append_right (Nat.le_add_right _ _), Nat.add_sub_cancel_left]
  refine ⟨Nat.add_pos_right _ hpos, by rwa [hget], ?_⟩
  rwa [Nat.add_sub_assoc hpos, Nat.add_assoc, hget, hget]

/-- The places of a word, from those of the word without its first letter. -/
theorem humpAt_cons_cons {b c : Char} : HumpAt (b :: c :: cs) (i + 1) ↔
    i = 0 ∧ isHump b c cs.head? = true ∨ HumpAt (c :: cs) i := by
  cases i with
  | zero => simp [HumpAt, isHump, List.head?_eq_getElem?, or_assoc]
  | succ i => simp [HumpAt]

/-! ## Humps -/

/-- A word that is not empty has humps. -/
theorem humps_ne_nil {c : Char} : humps (c :: cs) ≠ [] := by
  intro h
  have hflatten := flatten_humps (c :: cs)
  simp [h] at hflatten

/-- One more letter adds a cut behind itself if the next one starts a hump, and no other. -/
theorem cutAt_humps_cons_cons {b c : Char} : CutAt (humps (b :: c :: cs)) (i + 1) ↔
    i = 0 ∧ isHump b c cs.head? = true ∨ CutAt (humps (c :: cs)) i := by
  by_cases h : isHump b c cs.head? = true
  · simp [humps, h, cutAt_cons, humps_ne_nil, Nat.add_comm 1]
  · rw [humps, if_neg h, cutAt_consHead humps_ne_nil]
    simp [h]

/-- A word is cut where it looks like a hump. -/
theorem cutAt_humps_iff (cs : List Char) (i : Nat) : CutAt (humps cs) i ↔ HumpAt cs i := by
  induction cs generalizing i with
  | nil => simp [humps, not_cutAt_nil, HumpAt]
  | cons b cs ih =>
    cases i with
    | zero =>
      -- words start there, but none ends
      have hcut : ¬CutAt (humps (b :: cs)) 0 := fun h =>
        absurd (h.pos (ne_nil_of_mem_humps _)) (Nat.lt_irrefl 0)
      exact iff_of_false hcut fun h => absurd h.1 (Nat.lt_irrefl 0)
    | succ i =>
      cases cs with
      | nil => simp [humps, not_cutAt_singleton, HumpAt]
      | cons c cs =>
        -- the same is seen of the first two letters, and the rest is a shorter word
        rw [cutAt_humps_cons_cons, ih, humpAt_cons_cons]

/-- The humps of a word are the only pieces that make the word and are cut there. -/
theorem humps_eq_iff : humps cs = ws ↔
    (∀ w ∈ ws, w ≠ []) ∧ ws.flatten = cs ∧ ∀ i, CutAt ws i ↔ HumpAt cs i := by
  constructor
  · rintro rfl
    exact ⟨ne_nil_of_mem_humps cs, flatten_humps cs, cutAt_humps_iff cs⟩
  · rintro ⟨hws, hflatten, hcut⟩
    refine eq_of_cutAt (ne_nil_of_mem_humps cs) hws (by rw [flatten_humps, hflatten]) fun i => ?_
    rw [cutAt_humps_iff, hcut]

/-- A word that looks like a hump nowhere is one hump. -/
theorem humps_eq_singleton_iff : humps w = [w] ↔ w ≠ [] ∧ ∀ i, ¬HumpAt w i := by
  simp [humps_eq_iff, not_cutAt_singleton]

/-- Humps are not cut again. -/
theorem humps_of_mem_humps (h : w ∈ humps cs) : humps w = [w] := by
  refine humps_eq_singleton_iff.mpr ⟨ne_nil_of_mem_humps cs w h, fun i hi => ?_⟩
  obtain ⟨us, vs, hhumps⟩ := List.append_of_mem h
  have hcs : us.flatten ++ (w ++ vs.flatten) = cs := by
    rw [← flatten_humps cs, hhumps, List.flatten_append, List.flatten_cons]
  -- the word would look like a hump there too
  have hcut : CutAt (humps cs) (us.flatten.length + i) := by
    rw [cutAt_humps_iff, ← hcs]
    exact (hi.append vs.flatten).prepend us.flatten
  rw [hhumps] at hcut
  exact not_cutAt_inside hi.1 hi.lt_length hcut

/-- A word is cut at its humps and nowhere else.  The pieces are not empty, and together they make
the word.  One ends and the next one starts exactly at a capital that stands behind a small letter or
a digit, or between a capital and a small letter.  No piece is cut again. -/
theorem humps_cut_exactly (cs : List Char) :
    (∀ w ∈ humps cs, w ≠ []) ∧ (humps cs).flatten = cs ∧
      (∀ i, CutAt (humps cs) i ↔ HumpAt cs i) ∧ ∀ w ∈ humps cs, humps w = [w] :=
  ⟨ne_nil_of_mem_humps cs, flatten_humps cs, cutAt_humps_iff cs, fun _ => humps_of_mem_humps⟩

/-- A word with digits, several capitals in front of a small letter, and some at its end. -/
def lookUpWord : List Char := "lookUp4KHTTPServerV2XY".toList

/-- The capitals at the end stay together, and the last one before a small letter goes with it. -/
theorem humps_cut_exactly_lookUp :
    humps lookUpWord = ["look".toList, "Up4".toList, "KHTTP".toList, "Server".toList, "V2".toList,
      "XY".toList] ∧
    ("KHTTP".toList ∈ humps lookUpWord ∧ "KHTTP".toList ≠ []) ∧
    (humps lookUpWord).flatten = lookUpWord ∧
    (HumpAt lookUpWord 12 ∧ CutAt (humps lookUpWord) 12) ∧
    (¬HumpAt lookUpWord 21 ∧ ¬CutAt (humps lookUpWord) 21) ∧
    humps "KHTTP".toList = ["KHTTP".toList] := by
  obtain ⟨hne, hflatten, hcut, hagain⟩ := humps_cut_exactly lookUpWord
  have hmem : "KHTTP".toList ∈ humps lookUpWord := by decide
  have hhump : HumpAt lookUpWord 12 := by decide
  have hnone : ¬HumpAt lookUpWord 21 := by decide
  exact ⟨by decide, ⟨hmem, hne _ hmem⟩, hflatten, ⟨hhump, (hcut 12).mpr hhump⟩,
    ⟨hnone, mt (hcut 21).mp hnone⟩, hagain _ hmem⟩

end Promptwright.Identifiers
