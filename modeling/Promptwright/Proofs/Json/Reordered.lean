import Promptwright.Proofs.Json.Equality
import Promptwright.Proofs.Validator.Subschemas

/-!
# Members in another order

Values are compared without regard to the order of the members of objects.  So a value is the same as
every one that results from it by reordering objects, at any depth, and each of them compares with
other values as the value itself does.  Numbers are not compared by an equivalence: a great whole
number is the same as a floating one, which in turn is the same as other whole ones.  That is why the
laws here keep apart what is known of the numbers on each side.

## Key results

- `value_induction`: induction over values
- `EqualUpTo.refl`, `EqualUpTo.symm`, `EqualUpTo.trans`: laws of equality
- `Reordered`: values with objects in another order
- `same_reordered`, `same_comm`, `same_of_reordered`: comparing reordered values
-/

namespace Promptwright

namespace Json

open Members (keys)

/-! ## Induction -/

/-- What holds of a value if it holds of its items or of the values of its members holds of all
values. -/
@[elab_as_elim]
theorem value_induction {P : Json → Prop} (null : P .null) (bool : ∀ b, P (.bool b))
    (number : ∀ x, P (.number x)) (string : ∀ s, P (.string s))
    (array : ∀ items, (∀ j ∈ items, P j) → P (.array items))
    (object : ∀ members, (∀ m ∈ members, P m.2) → P (.object members)) (j : Json) : P j := by
  cases j with
  | null => exact null
  | bool b => exact bool b
  | number x => exact number x
  | string s => exact string s
  | array items =>
    apply array
    intro j hj
    have := List.sizeOf_lt_of_mem hj
    exact value_induction null bool number string array object j
  | object members =>
    apply object
    intro m hm
    have := Members.sizeOf_lt_of_mem hm
    exact value_induction null bool number string array object m.2
termination_by sizeOf j

/-! ## Laws of equality -/

section Laws

variable {R S T : Number → Number → Prop} {a b c : Json} {xs ys : List Json} {ms ns : Members}

/-- Equal items stand side by side. -/
theorem equalItems_iff : EqualItems R xs ys ↔ List.Forall₂ (EqualUpTo R) xs ys := by
  induction xs generalizing ys with
  | nil => cases ys <;> simp [EqualItems]
  | cons x xs ih => cases ys <;> simp [EqualItems, ih]

/-- Members have equal values where they have the same key. -/
theorem equalMembers_iff :
    EqualMembers R ms ns ↔ ∀ key x y, (key, x) ∈ ms → (key, y) ∈ ns → x.EqualUpTo R y := by
  induction ms with
  | nil => simp [EqualMembers]
  | cons m ms ih =>
    obtain ⟨key, x⟩ := m
    rw [EqualMembers, ih]
    constructor
    · rintro ⟨hfirst, hrest⟩ key' x' y hx' hy
      obtain heq | hx' := List.mem_cons.mp hx'
      · cases heq
        exact hfirst y hy
      · exact hrest key' x' y hx' hy
    · intro h
      exact ⟨fun y hy => h key x y List.mem_cons_self hy,
        fun key' x' y hx' => h key' x' y (List.mem_cons_of_mem _ hx')⟩

/-- What an array is equal to. -/
theorem equalUpTo_array_iff :
    (Json.array xs).EqualUpTo R b ↔ ∃ ys, b = .array ys ∧ List.Forall₂ (EqualUpTo R) xs ys := by
  cases b <;> simp [EqualUpTo, equalItems_iff]

/-- What an object is equal to. -/
theorem equalUpTo_object_iff :
    (Json.object ms).EqualUpTo R b ↔ ∃ ns, b = .object ns ∧
      (∀ key, key ∈ keys ms ↔ key ∈ keys ns) ∧
        ∀ key x y, (key, x) ∈ ms → (key, y) ∈ ns → x.EqualUpTo R y := by
  cases b <;> simp [EqualUpTo, equalMembers_iff]

/-- With distinct keys there is one value for a key. -/
theorem Members.value_unique {key : String} (h : ms.keys.Nodup) (ha : (key, a) ∈ ms)
    (hb : (key, b) ∈ ms) : a = b := by
  rw [← lookup_eq_some_iff h] at ha hb
  exact Option.some.inj (ha.symm.trans hb)

/-- Values that documents can hold are equal to themselves, if their numbers are. -/
theorem EqualUpTo.refl (hR : ∀ x, (Json.number x).WellFormed → R x x) (a : Json) :
    a.WellFormed → a.EqualUpTo R a := by
  induction a using value_induction with
  | null => exact fun _ => trivial
  | bool b => exact fun _ => rfl
  | number x => exact hR x
  | string s => exact fun _ => rfl
  | array items ih =>
    intro h
    have hitems : ∀ j ∈ items, j.WellFormed := wellFormedItems_iff.mp h
    exact equalUpTo_array_iff.mpr ⟨_, rfl, List.forall₂_same.mpr fun j hj => ih j hj (hitems j hj)⟩
  | object members ih =>
    intro h
    refine equalUpTo_object_iff.mpr ⟨_, rfl, fun _ => Iff.rfl, fun key x y hx hy => ?_⟩
    -- the key is there once, so it leads to one value
    obtain rfl := Members.value_unique h.1 hx hy
    exact ih (key, x) hx (wellFormedMembers_iff.mp h.2 _ hx)

/-- Equality can be turned around. -/
theorem EqualUpTo.symm (hR : ∀ x y, R x y → S y x) (a : Json) :
    ∀ b : Json, a.EqualUpTo R b → b.EqualUpTo S a := by
  induction a using value_induction with
  | null => intro b h; cases b <;> simp_all [EqualUpTo]
  | bool _ => intro b h; cases b <;> simp_all [EqualUpTo]
  | string _ => intro b h; cases b <;> simp_all [EqualUpTo]
  | number x =>
    intro b h
    cases b with
    | number y => exact hR x y h
    | null | bool _ | string _ | array _ | object _ => cases h
  | array items ih =>
    intro b h
    obtain ⟨ys, rfl, hitems⟩ := equalUpTo_array_iff.mp h
    refine equalUpTo_array_iff.mpr ⟨_, rfl, ?_⟩
    exact (forall₂_imp_of_mem hitems fun j hj b => ih j hj b).flip
  | object members ih =>
    intro b h
    obtain ⟨ns, rfl, hkeys, hvalues⟩ := equalUpTo_object_iff.mp h
    -- the keys are the same, so the values at a key are compared the other way round
    refine equalUpTo_object_iff.mpr ⟨_, rfl, fun key => (hkeys key).symm, fun key y x hy hx => ?_⟩
    exact ih (key, x) hx y (hvalues key x y hx hy)

/-- Equality is passed on. -/
theorem EqualUpTo.trans (hRS : ∀ x y z, R x y → S y z → T x z) (a : Json) :
    ∀ b c : Json, a.EqualUpTo R b → b.EqualUpTo S c → a.EqualUpTo T c := by
  induction a using value_induction with
  | null => intro b c h h'; cases b <;> cases c <;> simp_all [EqualUpTo]
  | bool _ => intro b c h h'; cases b <;> cases c <;> simp_all [EqualUpTo]
  | string _ => intro b c h h'; cases b <;> cases c <;> simp_all [EqualUpTo]
  | number x =>
    intro b c h h'
    cases b with
    | number y =>
      cases c with
      | number z => exact hRS x y z h h'
      | null | bool _ | string _ | array _ | object _ => cases h'
    | null | bool _ | string _ | array _ | object _ => cases h
  | array items ih =>
    intro b c h h'
    obtain ⟨ys, rfl, hitems⟩ := equalUpTo_array_iff.mp h
    obtain ⟨zs, rfl, hitems'⟩ := equalUpTo_array_iff.mp h'
    refine equalUpTo_array_iff.mpr ⟨_, rfl, ?_⟩
    apply forall₂_imp_of_mem (forall₂_comp hitems hitems')
    rintro x hx z ⟨y, hxy, hyz⟩
    exact ih x hx y z hxy hyz
  | object members ih =>
    intro b c h h'
    obtain ⟨ns, rfl, hkeys, hvalues⟩ := equalUpTo_object_iff.mp h
    obtain ⟨ps, rfl, hkeys', hvalues'⟩ := equalUpTo_object_iff.mp h'
    refine equalUpTo_object_iff.mpr
      ⟨_, rfl, fun key => (hkeys key).trans (hkeys' key), fun key x z hx hz => ?_⟩
    -- the value between the two is the one that the object in the middle has for the key
    have hkey : key ∈ keys ns := (hkeys' key).mpr (List.mem_map_of_mem hz)
    obtain ⟨⟨_, y⟩, hy, rfl⟩ := List.mem_map.mp hkey
    exact ih _ hx y z (hvalues _ x y hx hy) (hvalues' _ y z hy hz)

end Laws

/-! ## Reordering -/

/-- The second value results from the first one by reordering the members of objects, at whatever
depth. -/
inductive Reordered : Json → Json → Prop
  | refl (j : Json) : Reordered j j
  | trans {a b c : Json} (h : Reordered a b) (h' : Reordered b c) : Reordered a c
  /-- The members of an object change their places. -/
  | permute {ms ns : Members} (h : ms.Perm ns) : Reordered (.object ms) (.object ns)
  /-- Something is reordered inside an item of an array. -/
  | item {a b : Json} (before after : List Json) (h : Reordered a b) :
      Reordered (.array (before ++ a :: after)) (.array (before ++ b :: after))
  /-- Something is reordered inside the value of a member. -/
  | member {a b : Json} (before after : Members) (key : String) (h : Reordered a b) :
      Reordered (.object (before ++ (key, a) :: after)) (.object (before ++ (key, b) :: after))

namespace Reordered

variable {a b : Json}

/-- The keys of members do not depend on their values. -/
theorem keys_middle (before after : Members) (key : String) (a b : Json) :
    keys (before ++ (key, a) :: after) = keys (before ++ (key, b) :: after) := by
  simp only [Members.keys_append, Members.keys_cons]

/-- Reordering leads to values that documents can hold. -/
theorem wellFormed (h : a.Reordered b) (ha : a.WellFormed) : b.WellFormed := by
  induction h with
  | refl j => exact ha
  | trans _ _ ih ih' => exact ih' (ih ha)
  | @permute ms ns h =>
    obtain ⟨hkeys, hms⟩ := ha
    -- the same keys in another order are still distinct
    have hkeys' : (keys ns).Nodup := (h.map Prod.fst).nodup_iff.mp hkeys
    refine ⟨hkeys', wellFormedMembers_iff.mpr fun m hm => ?_⟩
    exact wellFormedMembers_iff.mp hms m (h.mem_iff.mpr hm)
  | item before after h ih =>
    have hitems := wellFormedItems_iff.mp ha
    simp only [List.forall_mem_append, List.forall_mem_cons] at hitems
    obtain ⟨hbefore, hitem, hafter⟩ := hitems
    apply wellFormedItems_iff.mpr
    simp only [List.forall_mem_append, List.forall_mem_cons]
    exact ⟨hbefore, ih hitem, hafter⟩
  | @member a b before after key h ih =>
    obtain ⟨hkeys, hms⟩ := ha
    have hvalues := wellFormedMembers_iff.mp hms
    simp only [List.forall_mem_append, List.forall_mem_cons] at hvalues
    obtain ⟨hbefore, hvalue, hafter⟩ := hvalues
    refine ⟨keys_middle before after key a b ▸ hkeys, wellFormedMembers_iff.mpr ?_⟩
    simp only [List.forall_mem_append, List.forall_mem_cons]
    exact ⟨hbefore, ih hvalue, hafter⟩

/-- Reordering leads to equal values. -/
theorem equalUpTo (h : a.Reordered b) (ha : a.WellFormed) : a.EqualUpTo Eq b := by
  have hrefl : ∀ j : Json, j.WellFormed → j.EqualUpTo Eq j := EqualUpTo.refl fun _ _ => rfl
  induction h with
  | refl j => exact hrefl j ha
  | trans h _ ih ih' =>
    have hstep := ih' (h.wellFormed ha)
    exact EqualUpTo.trans (fun x y z hxy hyz => hxy.trans hyz) _ _ _ (ih ha) hstep
  | @permute ms ns h =>
    -- both objects have the same members, and one for each key
    refine equalUpTo_object_iff.mpr
      ⟨_, rfl, fun key => (h.map Prod.fst).mem_iff, fun key x y hx hy => ?_⟩
    obtain rfl := Members.value_unique ha.1 hx (h.mem_iff.mpr hy)
    exact hrefl x (wellFormedMembers_iff.mp ha.2 _ hx)
  | @item a b before after h ih =>
    have hitems := wellFormedItems_iff.mp ha
    simp only [List.forall_mem_append, List.forall_mem_cons] at hitems
    obtain ⟨hbefore, hitem, hafter⟩ := hitems
    refine equalUpTo_array_iff.mpr ⟨_, rfl, List.rel_append ?_ (.cons (ih hitem) ?_)⟩
    · exact List.forall₂_same.mpr fun j hj => hrefl j (hbefore j hj)
    · exact List.forall₂_same.mpr fun j hj => hrefl j (hafter j hj)
  | @member a b before after key h ih =>
    have hsame : keys (before ++ (key, a) :: after) = keys (before ++ (key, b) :: after) :=
      keys_middle before after key a b
    have hvalues := wellFormedMembers_iff.mp ha.2
    refine equalUpTo_object_iff.mpr ⟨_, rfl, fun k => by rw [hsame], fun k x y hx hy => ?_⟩
    by_cases hk : k = key
    · -- the key of the member that changes leads to the old value and to the new one
      subst hk
      obtain rfl : x = a := Members.value_unique ha.1 hx (by simp)
      obtain rfl : y = b := Members.value_unique (hsame ▸ ha.1) hy (by simp)
      exact ih (hvalues _ hx)
    · -- every other member is in both objects
      have hy' : (k, y) ∈ before ++ (key, a) :: after := by simpa [hk] using hy
      obtain rfl := Members.value_unique ha.1 hx hy'
      exact hrefl x (hvalues _ hx)

end Reordered

end Json

/-! ## Numbers -/

/-- Rounding gives a number. -/
theorem Binary64.ofInt_ne_nan (n : Int) : Binary64.ofInt n ≠ .nan := by
  unfold ofInt round
  rw [if_neg (by decide)]
  split
  · exact nofun
  · dsimp only
    split <;> split <;> exact nofun

/-- Everything but "not a number" is the same as itself. -/
theorem Binary64.same_self {x : Binary64} (h : x ≠ .nan) : x.same x = true := by
  cases x with
  | nan => exact absurd rfl h
  | infinite s => cases s <;> rfl
  | finite s m e => simp [Binary64.same, Binary64.le]

namespace Json

/-- The comparison of numbers is symmetric. -/
theorem Number.same_comm (x y : Number) : x.same y = y.same x := by
  unfold Number.same
  cases x.toSigned? with
  | none =>
    cases y.toSigned? <;> exact same_comm_of_binary64 _ _
  | some m =>
    cases y.toSigned? with
    | none => exact same_comm_of_binary64 _ _
    | some n => exact Bool.beq_comm

/-- A number that documents can hold is the same as itself. -/
theorem Number.same_self {x : Number} (h : (Json.number x).WellFormed) : x.same x = true := by
  unfold Number.same
  cases hsigned : x.toSigned? with
  | some m => exact beq_self_eq_true m
  | none =>
    apply Binary64.same_self
    cases x with
    | integer n => exact Binary64.ofInt_ne_nan n
    | float y =>
      rintro rfl
      cases h

/-! ## Comparing -/

/-- Numbers are equal if the comparison finds them the same. -/
abbrev Number.Same (x y : Number) : Prop := x.same y = true

mutual

/-- Nothing is asked of the numbers in a value. -/
theorem numbersAre_any : (j : Json) → j.NumbersAre fun _ => True
  | .null => trivial
  | .bool _ => trivial
  | .number _ => trivial
  | .string _ => trivial
  | .array items => itemNumbersAre_any items
  | .object members => memberNumbersAre_any members
  termination_by structural j => j

/-- Nothing is asked of the numbers in items. -/
theorem itemNumbersAre_any : (js : List Json) → ItemNumbersAre (fun _ => True) js
  | [] => trivial
  | j :: js => ⟨numbersAre_any j, itemNumbersAre_any js⟩
  termination_by structural js => js

/-- Nothing is asked of the numbers in members. -/
theorem memberNumbersAre_any : (ms : List (String × Json)) → MemberNumbersAre (fun _ => True) ms
  | [] => trivial
  | (_, j) :: ms => ⟨numbersAre_any j, memberNumbersAre_any ms⟩
  termination_by structural ms => ms

end

section Comparing

variable {a a' b b' : Json}

/-- The comparison decides whether values are equal up to the order of members and the notation of
numbers. -/
theorem same_iff_equalUpTo (ha : a.WellFormed) (hb : b.WellFormed) :
    a.same b = true ↔ a.EqualUpTo Number.Same b :=
  same_iff (fun _ _ _ _ => Iff.rfl) a b ha hb (numbersAre_any a) (numbersAre_any b)

/-- The comparison of values is symmetric. -/
theorem same_comm (ha : a.WellFormed) (hb : b.WellFormed) : a.same b = b.same a := by
  have hflip : ∀ x y : Number, x.Same y → y.Same x := fun x y h => (Number.same_comm y x).trans h
  rw [Bool.eq_iff_iff, same_iff_equalUpTo ha hb, same_iff_equalUpTo hb ha]
  exact ⟨EqualUpTo.symm hflip a b, EqualUpTo.symm hflip b a⟩

/-- Every value is the same as what results from reordering it. -/
theorem same_of_reordered (ha : a.WellFormed) (h : a.Reordered a') : a.same a' = true := by
  rw [same_iff_equalUpTo ha (h.wellFormed ha)]
  have hself : a.EqualUpTo Number.Same a := EqualUpTo.refl (fun _ => Number.same_self) a ha
  exact EqualUpTo.trans (fun x y z hxy hyz => hyz ▸ hxy) a a a' hself (h.equalUpTo ha)

/-- Reordered values compare as the values themselves. -/
theorem same_reordered (ha : a.WellFormed) (hb : b.WellFormed) (haa' : a.Reordered a')
    (hbb' : b.Reordered b') : a'.same b' = a.same b := by
  have hleft : a.EqualUpTo Eq a' := haa'.equalUpTo ha
  have hright : b.EqualUpTo Eq b' := hbb'.equalUpTo hb
  have hleft' : a'.EqualUpTo Eq a := EqualUpTo.symm (fun _ _ => Eq.symm) a a' hleft
  have hright' : b'.EqualUpTo Eq b := EqualUpTo.symm (fun _ _ => Eq.symm) b b' hright
  -- equal numbers can be put in front of a comparison and behind it
  have hbefore : ∀ x y z : Number, x = y → y.Same z → x.Same z := fun x y z hxy h => hxy ▸ h
  have hafter : ∀ x y z : Number, x.Same y → y = z → x.Same z := fun x y z h hyz => hyz ▸ h
  rw [Bool.eq_iff_iff, same_iff_equalUpTo (haa'.wellFormed ha) (hbb'.wellFormed hb),
    same_iff_equalUpTo ha hb]
  constructor
  · intro h
    have hmiddle : a.EqualUpTo Number.Same b' := EqualUpTo.trans hbefore a a' b' hleft h
    exact EqualUpTo.trans hafter a b' b hmiddle hright'
  · intro h
    have hmiddle : a'.EqualUpTo Number.Same b := EqualUpTo.trans hbefore a' a b hleft' h
    exact EqualUpTo.trans hafter a' b b' hmiddle hright

end Comparing

end Json

end Promptwright
