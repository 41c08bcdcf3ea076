import Mathlib.Data.List.Sort
import Promptwright.Files.Tree

/-!
# The order of paths

Texts, names on the way to a file and the parts of paths are all compared in the same manner: the
first place where two lists differ decides, and a list comes before those that go on behind it.  Two
paths are in this order both ways only if they have the same parts, so there is one way only to put
different paths in order.

## Key results

- `IsOrder.lexLe`: comparing lists, given an order of their elements
- `isOrder_textLe`, `isOrder_namesLe`, `isOrder_partsLe`: the orders of texts, names and parts
- `pairwise_le_mergeSort`, `map_parts_eq_of_before`: sorted paths
-/

namespace Promptwright

/-! ## Orders of lists -/

section Lists

variable {α : Type}

/-- A test that puts any two things in order. -/
structure IsOrder (le : α → α → Bool) : Prop where
  total : ∀ a b, le a b = true ∨ le b a = true
  trans : ∀ a b c, le a b = true → le b c = true → le a c = true
  antisymm : ∀ a b, le a b = true → le b a = true → a = b

/-- Compares lists at the first place where they differ. -/
def lexLe [DecidableEq α] (le : α → α → Bool) : List α → List α → Bool
  | [], _ => true
  | _ :: _, [] => false
  | a :: as, b :: bs => if a = b then lexLe le as bs else le a b

variable [DecidableEq α] {le : α → α → Bool} {a b : α} {as bs : List α}

/-- Elements that are in order and differ, or that are the same in front of lists in order. -/
theorem lexLe_cons_iff :
    lexLe le (a :: as) (b :: bs) = true ↔
      (a = b ∧ lexLe le as bs = true) ∨ (a ≠ b ∧ le a b = true) := by
  rw [lexLe]
  split
  next h => simp [h]
  next h => simp [h]

/-- An order of elements gives an order of lists. -/
theorem IsOrder.lexLe (h : IsOrder le) : IsOrder (lexLe le) where
  total as bs := by
    induction as generalizing bs with
    | nil => exact .inl (by rw [Promptwright.lexLe])
    | cons a as ih =>
      cases bs with
      | nil => exact .inr (by rw [Promptwright.lexLe])
      | cons b bs =>
        by_cases hab : a = b
        · obtain hle | hle := ih bs
          · exact .inl (lexLe_cons_iff.mpr (.inl ⟨hab, hle⟩))
          · exact .inr (lexLe_cons_iff.mpr (.inl ⟨hab.symm, hle⟩))
        · obtain hle | hle := h.total a b
          · exact .inl (lexLe_cons_iff.mpr (.inr ⟨hab, hle⟩))
          · exact .inr (lexLe_cons_iff.mpr (.inr ⟨Ne.symm hab, hle⟩))
  trans as bs cs := by
    induction as generalizing bs cs with
    | nil => intro _ _; rw [Promptwright.lexLe]
    | cons a as ih =>
      intro hab hbc
      cases bs with
      | nil => rw [Promptwright.lexLe] at hab; contradiction
      | cons b bs =>
      cases cs with
      | nil => rw [Promptwright.lexLe] at hbc; contradiction
      | cons c cs =>
      obtain ⟨rfl, hab'⟩ | ⟨hne, hab⟩ := lexLe_cons_iff.mp hab
      · obtain ⟨rfl, hbc'⟩ | ⟨hne, hbc⟩ := lexLe_cons_iff.mp hbc
        · exact lexLe_cons_iff.mpr (.inl ⟨rfl, ih bs cs hab' hbc'⟩)
        · exact lexLe_cons_iff.mpr (.inr ⟨hne, hbc⟩)
      · obtain ⟨rfl, -⟩ | ⟨hne', hbc⟩ := lexLe_cons_iff.mp hbc
        · exact lexLe_cons_iff.mpr (.inr ⟨hne, hab⟩)
        · refine lexLe_cons_iff.mpr (.inr ⟨?_, h.trans a b c hab hbc⟩)
          -- if the ends were the same, so would be what is between them
          rintro rfl
          exact hne (h.antisymm a b hab hbc)
  antisymm as bs := by
    induction as generalizing bs with
    | nil =>
      intro _ hba
      cases bs with
      | nil => rfl
      | cons b bs => rw [Promptwright.lexLe] at hba; contradiction
    | cons a as ih =>
      intro hab hba
      cases bs with
      | nil => rw [Promptwright.lexLe] at hab; contradiction
      | cons b bs =>
      obtain ⟨rfl, hab'⟩ | ⟨hne, hab⟩ := lexLe_cons_iff.mp hab
      · obtain ⟨-, hba'⟩ | ⟨hne, -⟩ := lexLe_cons_iff.mp hba
        · rw [ih bs hab' hba']
        · exact absurd rfl hne
      · obtain ⟨rfl, -⟩ | ⟨-, hba⟩ := lexLe_cons_iff.mp hba
        · exact absurd rfl hne
        · exact absurd (h.antisymm a b hab hba) hne

omit [DecidableEq α] in
/-- Lists with the same elements are sorted to the same list. -/
theorem IsOrder.mergeSort_eq_of_perm (h : IsOrder le) (hperm : as.Perm bs) :
    as.mergeSort le = bs.mergeSort le := by
  have hsorted : ∀ cs : List α, (cs.mergeSort le).Pairwise fun a b => le a b = true := fun cs =>
    List.pairwise_mergeSort h.trans (fun a b => Bool.or_eq_true_iff.mpr (h.total a b)) cs
  refine List.Perm.eq_of_pairwise (fun a b _ _ => h.antisymm a b) (hsorted as) (hsorted bs) ?_
  exact ((List.mergeSort_perm as le).trans hperm).trans (List.mergeSort_perm bs le).symm

end Lists

namespace Path

/-! ## Texts, parts and paths -/

/-- Texts are compared character by character. -/
theorem textLe_eq (as bs : List Char) : textLe as bs = lexLe (fun a b => decide (a ≤ b)) as bs := by
  induction as generalizing bs with
  | nil => rw [textLe, lexLe]
  | cons a as ih =>
    cases bs with
    | nil => rw [textLe, lexLe]
    | cons b bs =>
      rw [textLe, lexLe, ih]
      by_cases hab : a = b
      · rw [hab, if_neg (Char.lt_irrefl b), if_neg (Char.lt_irrefl b), if_pos rfl]
      · rw [if_neg hab]
        by_cases hlt : a < b
        · rw [if_pos hlt, decide_eq_true (Char.not_lt.mp (Char.lt_asymm hlt))]
        · have hle : ¬ a ≤ b := fun hle => hab (Char.le_antisymm hle (Char.not_lt.mp hlt))
          rw [if_neg hlt, if_pos (Char.not_le.mp hle), decide_eq_false hle]

/-- The order of texts. -/
theorem isOrder_textLe : IsOrder textLe := by
  have hchars : IsOrder fun a b : Char => decide (a ≤ b) := by
    constructor
    · intro a b
      simpa using Char.le_total a b
    · intro a b c
      simpa using Char.le_trans
    · intro a b
      simpa using Char.le_antisymm
  have heq : textLe = lexLe fun a b => decide (a ≤ b) := by
    funext as bs
    exact textLe_eq as bs
  rw [heq]
  exact hchars.lexLe

/-- The order of the names on the way to a file. -/
theorem isOrder_namesLe : IsOrder FileTree.namesLe := by
  have hnames : IsOrder fun a b : String => textLe a.toList b.toList := by
    constructor
    · exact fun a b => isOrder_textLe.total _ _
    · exact fun a b c => isOrder_textLe.trans _ _ _
    · exact fun a b hab hba => String.toList_inj.mp (isOrder_textLe.antisymm _ _ hab hba)
  have heq : FileTree.namesLe = lexLe fun a b : String => textLe a.toList b.toList := by
    funext as bs
    induction as generalizing bs with
    | nil => rw [FileTree.namesLe, lexLe]
    | cons a as ih =>
      cases bs with
      | nil => rw [FileTree.namesLe, lexLe]
      | cons b bs => rw [FileTree.namesLe, lexLe, ih]
  rw [heq]
  exact hnames.lexLe

/-- The order of parts. -/
theorem Part.isOrder_le : IsOrder Part.le where
  total a b := by
    cases a <;> cases b <;> simp [Part.le, Part.rank]
    exact isOrder_textLe.total _ _
  trans a b c := by
    cases a <;> cases b <;> cases c <;> simp [Part.le, Part.rank]
    exact isOrder_textLe.trans _ _ _
  antisymm a b := by
    cases a <;> cases b <;> simp [Part.le, Part.rank]
    exact fun hab hba => String.toList_inj.mp (isOrder_textLe.antisymm _ _ hab hba)

/-- The order of lists of parts. -/
theorem isOrder_partsLe : IsOrder partsLe := by
  have heq : partsLe = lexLe Part.le := by
    funext as bs
    induction as generalizing bs with
    | nil => rw [partsLe, lexLe]
    | cons a as ih =>
      cases bs with
      | nil => rw [partsLe, lexLe]
      | cons b bs => rw [partsLe, lexLe, ih]
  rw [heq]
  exact Part.isOrder_le.lexLe

/-- Whether one path comes before another one, in the order of their parts. -/
def Before (p q : String) : Prop := le p q = true ∧ parts p ≠ parts q

instance (p q : String) : Decidable (Before p q) :=
  inferInstanceAs (Decidable (le p q = true ∧ parts p ≠ parts q))

/-- Sorted paths are in order. -/
theorem pairwise_le_mergeSort (ps : List String) :
    (ps.mergeSort le).Pairwise fun p q => le p q = true := by
  apply List.pairwise_mergeSort
  · exact fun p q r => isOrder_partsLe.trans _ _ _
  · intro p q
    rw [Bool.or_eq_true]
    exact isOrder_partsLe.total _ _

/-- There is only one order for paths with different parts. -/
theorem map_parts_eq_of_before {ps qs : List String} (hps : ps.Pairwise Before)
    (hqs : qs.Pairwise Before) (h : ∀ a, a ∈ ps.map parts ↔ a ∈ qs.map parts) :
    ps.map parts = qs.map parts := by
  have : Std.Irrefl fun a b => partsLe a b = true ∧ a ≠ b := ⟨fun _ h => h.2 rfl⟩
  have : Std.Antisymm fun a b => partsLe a b = true ∧ a ≠ b :=
    ⟨fun a b hab hba => isOrder_partsLe.antisymm a b hab.1 hba.1⟩
  have hparts : ∀ {rs : List String}, rs.Pairwise Before →
      (rs.map parts).Pairwise fun a b => partsLe a b = true ∧ a ≠ b :=
    fun hrs => List.pairwise_map.mpr hrs
  exact (hparts hps).eq_of_mem_iff (hparts hqs) h

end Path

end Promptwright
