import Mathlib.Data.List.Perm.Subperm
import Promptwright.Json.Same
import Promptwright.Proofs.Binary64.Integers
import Promptwright.Proofs.Json.Members

/-!
# Equal values

Two values are equal if they differ only in the order of the members of objects.  What it means that
two numbers are equal is left open here, since numbers are compared in more than one way: exactly, or
as floating numbers.

## Key results

- `EqualUpTo`: equality of values, for a given equality of numbers
- `same_iff`: what the comparison of values decides
- `Number.same_integer_iff`: what the comparison of whole numbers decides
-/

namespace Promptwright.Json

open Members (keys lookup)

/-! ## Equality -/

mutual

/-- Two values are equal: their items are equal one by one, and their objects have the same keys with
equal values, in whatever order.  `R` says which numbers are equal. -/
def EqualUpTo (R : Number → Number → Prop) : Json → Json → Prop
  | .null, .null => True
  | .bool a, .bool b => a = b
  | .number x, .number y => R x y
  | .string s, .string t => s = t
  | .array xs, .array ys => EqualItems R xs ys
  | .object ms, .object ns => (∀ key, key ∈ keys ms ↔ key ∈ keys ns) ∧ EqualMembers R ms ns
  | _, _ => False
  termination_by structural a => a

/-- Lists with equal items. -/
def EqualItems (R : Number → Number → Prop) : List Json → List Json → Prop
  | [], [] => True
  | x :: xs, y :: ys => EqualUpTo R x y ∧ EqualItems R xs ys
  | _, _ => False
  termination_by structural xs => xs

/-- Members that have equal values wherever they have the same key. -/
def EqualMembers (R : Number → Number → Prop) : List (String × Json) → List (String × Json) → Prop
  | [], _ => True
  | (key, x) :: ms, ns => (∀ y, (key, y) ∈ ns → EqualUpTo R x y) ∧ EqualMembers R ms ns
  termination_by structural ms => ms

end

mutual

/-- Every number in a value has a property. -/
def NumbersAre (p : Number → Prop) : Json → Prop
  | .number x => p x
  | .array items => ItemNumbersAre p items
  | .object members => MemberNumbersAre p members
  | _ => True
  termination_by structural j => j

/-- Every number in the items of a list has a property. -/
def ItemNumbersAre (p : Number → Prop) : List Json → Prop
  | [] => True
  | j :: js => NumbersAre p j ∧ ItemNumbersAre p js
  termination_by structural js => js

/-- Every number in the values of some members has a property. -/
def MemberNumbersAre (p : Number → Prop) : List (String × Json) → Prop
  | [] => True
  | (_, j) :: ms => NumbersAre p j ∧ MemberNumbersAre p ms
  termination_by structural ms => ms

end

/-- The numbers in a member. -/
theorem numbersAre_of_mem {p : Number → Prop} {ms : Members} (h : MemberNumbersAre p ms)
    {m : String × Json} (hm : m ∈ ms) : m.2.NumbersAre p := by
  induction ms with
  | nil => cases hm
  | cons m' ms ih =>
    obtain ⟨hfirst, hrest⟩ := h
    obtain rfl | hm := List.mem_cons.mp hm
    · exact hfirst
    · exact ih hrest hm

/-! ## Comparing -/

/-- Objects of the same size have the same keys if those of the first one are all in the second. -/
theorem mem_keys_iff_of_length {ms ns : Members} (hms : (keys ms).Nodup) (hns : (keys ns).Nodup) :
    (ms.length = ns.length ∧ ∀ key ∈ keys ms, key ∈ keys ns) ↔
      ∀ key, key ∈ keys ms ↔ key ∈ keys ns := by
  have hlength : ∀ l : Members, (keys l).length = l.length := fun l => List.length_map _
  constructor
  · rintro ⟨hsize, hsub⟩
    -- a list without repetitions inside one of the same length is all of it
    have hsubperm : (keys ms).Subperm (keys ns) := List.subperm_of_subset hms hsub
    have hperm : (keys ms).Perm (keys ns) := by
      apply hsubperm.perm_of_length_le
      rw [hlength, hlength, hsize]
    exact fun key => hperm.mem_iff
  · intro h
    have hperm : (keys ms).Perm (keys ns) := (List.perm_ext_iff_of_nodup hms hns).mpr h
    refine ⟨?_, fun key => (h key).mp⟩
    rw [← hlength ms, ← hlength ns]
    exact hperm.length_eq

section Same

variable {p q : Number → Prop} {R : Number → Number → Prop}

mutual

/-- The comparison of values decides whether they are equal, if that of numbers does. -/
theorem same_iff (hR : ∀ x y, p x → q y → (x.same y = true ↔ R x y)) : (a b : Json) →
    a.WellFormed → b.WellFormed → a.NumbersAre p → b.NumbersAre q →
    (a.same b = true ↔ a.EqualUpTo R b)
  | .null, b, _, _, _, _ => by cases b <;> simp [same, EqualUpTo]
  | .bool _, b, _, _, _, _ => by cases b <;> simp [same, EqualUpTo]
  | .string _, b, _, _, _, _ => by cases b <;> simp [same, EqualUpTo]
  | .number x, b, _, _, hx, hb => by
    cases b with
    | number y => exact hR x y hx hb
    | null | bool _ | string _ | array _ | object _ => simp [same, EqualUpTo]
  | .array xs, b, hxs, hb, hp, hq => by
    cases b with
    | array ys => exact sameItems_iff hR xs ys hxs hb hp hq
    | null | bool _ | number _ | string _ | object _ => simp [same, EqualUpTo]
  | .object ms, b, hms, hb, hp, hq => by
    cases b with
    | object ns =>
      -- there are as many keys on both sides, each once, so it is enough to find those of the one
      -- side
      rw [same, EqualUpTo, Bool.and_eq_true, beq_iff_eq, ← mem_keys_iff_of_length hms.1 hb.1,
        sameMembers_iff hR ms hms.2 hp hb.1 (wellFormedMembers_iff.mp hb.2)
          (fun m hm => numbersAre_of_mem hq hm)]
      exact and_assoc.symm
    | null | bool _ | number _ | string _ | array _ => simp [same, EqualUpTo]
  termination_by structural a => a

/-- Items are compared one by one. -/
theorem sameItems_iff (hR : ∀ x y, p x → q y → (x.same y = true ↔ R x y)) : (xs ys : List Json) →
    WellFormedItems xs → WellFormedItems ys → ItemNumbersAre p xs → ItemNumbersAre q ys →
    (sameItems xs ys = true ↔ EqualItems R xs ys)
  | [], ys, _, _, _, _ => by cases ys <;> simp [sameItems, EqualItems]
  | x :: xs, ys, hxs, hys, hp, hq => by
    cases ys with
    | nil => simp [sameItems, EqualItems]
    | cons y ys =>
      rw [sameItems, EqualItems, Bool.and_eq_true, same_iff hR x y hxs.1 hys.1 hp.1 hq.1,
        sameItems_iff hR xs ys hxs.2 hys.2 hp.2 hq.2]
  termination_by structural xs => xs

/-- The members of an object are looked up in the other one, where every key is there once. -/
theorem sameMembers_iff (hR : ∀ x y, p x → q y → (x.same y = true ↔ R x y)) {ns : Members} :
    (ms : List (String × Json)) → WellFormedMembers ms → MemberNumbersAre p ms →
    (keys ns).Nodup → (∀ n ∈ ns, n.2.WellFormed) → (∀ n ∈ ns, n.2.NumbersAre q) →
    (sameMembers ms ns = true ↔ (∀ key ∈ keys ms, key ∈ keys ns) ∧ EqualMembers R ms ns)
  | [], _, _, _, _, _ => by simp [sameMembers, EqualMembers, keys]
  | (key, x) :: ms, hms, hp, hns, hwf, hq => by
    have hrest := sameMembers_iff hR ms hms.2 hp.2 hns hwf hq
    rw [sameMembers, EqualMembers, Bool.and_eq_true, hrest, Members.keys_cons,
      List.forall_mem_cons]
    cases hlookup : lookup ns key with
    | none =>
      have hnot : key ∉ keys ns := Members.lookup_eq_none_iff.mp hlookup
      simp [hnot]
    | some y =>
      have hmem : (key, y) ∈ ns := (Members.lookup_eq_some_iff hns).mp hlookup
      have hkey : key ∈ keys ns := List.mem_map_of_mem hmem
      -- the value that is found is the only one with this key
      have honly : (∀ z, (key, z) ∈ ns → x.EqualUpTo R z) ↔ x.EqualUpTo R y := by
        refine ⟨fun h => h y hmem, fun h z hz => ?_⟩
        have hz' := (Members.lookup_eq_some_iff hns).mpr hz
        rw [hlookup] at hz'
        exact Option.some.inj hz' ▸ h
      dsimp only
      rw [same_iff hR x y hms.1 (hwf _ hmem) hp.1 (hq _ hmem), honly]
      constructor
      · exact fun h => ⟨⟨hkey, h.2.1⟩, h.1, h.2.2⟩
      · exact fun h => ⟨h.2.1, h.1.2, h.2.2⟩
  termination_by structural ms => ms

end

end Same

/-! ## Whole numbers -/

namespace Number

/-- A whole number that a text of JSON can hold: one of 64 bits, with or without a sign. -/
def IsWhole : Number → Prop
  | .integer n => -2 ^ 63 ≤ n ∧ n < 2 ^ 64
  | .float _ => False

/-- Two whole numbers that are taken for the same one: equal ones, and great ones that have the same
nearest multiple of `2048`.  One of these is `2 ^ 63` at least, and none is smaller than that by
more than `512`. -/
def Conflated : Number → Number → Prop
  | .integer m, .integer n =>
    m = n ∨ (2 ^ 63 ≤ m ∨ 2 ^ 63 ≤ n) ∧ (2 ^ 63 - 512 ≤ m ∧ 2 ^ 63 - 512 ≤ n) ∧
      Binary64.roundDiv m.toNat 2048 = Binary64.roundDiv n.toNat 2048
  | _, _ => False

/-- The comparison of floating numbers is symmetric. -/
theorem same_comm_of_binary64 (x y : Binary64) : x.same y = y.same x := Bool.and_comm _ _

/-- What the comparison of whole numbers decides. -/
theorem same_integer_iff {x y : Number} (hx : x.IsWhole) (hy : y.IsWhole) :
    x.same y = true ↔ x.Conflated y := by
  cases x with
  | float _ => exact hx.elim
  | integer m =>
    cases y with
    | float _ => exact hy.elim
    | integer n =>
      obtain ⟨hm, hm'⟩ := hx
      obtain ⟨hn, hn'⟩ := hy
      have hbound : (signedBound : Int) = 2 ^ 63 := by decide
      unfold same Conflated
      simp only [toSigned?, toBinary64, hbound]
      by_cases hsm : m < 2 ^ 63 <;> by_cases hsn : n < 2 ^ 63
      · -- both fit into 64 bits with a sign, and are compared as they are
        rw [if_pos ⟨hm, hsm⟩, if_pos ⟨hn, hsn⟩]
        simp only [beq_iff_eq]
        omega
      · -- from here on one is too great, and both are compared as floating numbers
        rw [if_pos ⟨hm, hsm⟩, if_neg (by omega)]
        simp only [same_comm_of_binary64 (Binary64.ofInt m)]
        rw [Binary64.same_ofInt_of_le_iff (by omega) hn' hm hm']
        omega
      · rw [if_neg (by omega)]
        simp only
        rw [Binary64.same_ofInt_of_le_iff (by omega) hm' hn hn']
        omega
      · rw [if_neg (by omega)]
        simp only
        rw [Binary64.same_ofInt_of_le_iff (by omega) hm' hn hn']
        constructor
        · exact fun h => .inr ⟨.inl (by omega), ⟨by omega, h.1⟩, h.2⟩
        · rintro (rfl | h)
          · exact ⟨by omega, rfl⟩
          · exact ⟨h.2.1.2, h.2.2⟩

end Number

end Promptwright.Json
