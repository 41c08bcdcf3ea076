import Mathlib.Data.Option.Basic
import Promptwright.Proofs.Document.Records
import Promptwright.Proofs.Json.Members
import Promptwright.Proofs.Outcome

/-!
# Variants of documents

Two documents may differ in what stands for some fields of their records.  If the readers of these
fields make the same of it, up to a relation, then so does the reader of the whole record: the
relation is carried from field to field, and where one document is refused the other one is refused
for the same reason.

## Key results

- `forall₂_remove`, `forall₂_insert`: members that are related one by one
- `Node.Varied`: parts that differ in the values of fields
- `Record.Carries`: a relation of states that all fields keep
- `SameBeside`: states that differ in one place
- `both_read`: records
- `both_optional`, `both_list`: values that may be missing, and lists
-/

namespace Promptwright

/-! ## Members side by side -/

namespace Json.Members

variable {P : String × Json → String × Json → Prop} {ms ms' : Members}

/-- Members that are related one by one are split at the same place. -/
theorem forall₂_split? (hkey : ∀ m m', P m m' → m.1 = m'.1) (h : List.Forall₂ P ms ms')
    (key : String) :
    Option.Rel (fun p p' => List.Forall₂ P p.1 p'.1 ∧ List.Forall₂ P p.2 p'.2) (split? ms key)
      (split? ms' key) := by
  induction h with
  | nil => exact .none
  | @cons m m' ms ms' hm hrest ih =>
    obtain ⟨k, v⟩ := m
    obtain ⟨k', v'⟩ := m'
    obtain rfl : k = k' := hkey _ _ hm
    rw [split?, split?]
    split
    · exact .some ⟨.nil, hrest⟩
    -- the key comes later in both, or in neither
    · generalize split? ms key = x at ih ⊢
      generalize split? ms' key = y at ih ⊢
      cases ih with
      | none => exact .none
      | some hparts => exact .some ⟨.cons hm hparts.1, hparts.2⟩

/-- Members that are related one by one are so after a key is taken out. -/
theorem forall₂_remove (hkey : ∀ m m', P m m' → m.1 = m'.1) (h : List.Forall₂ P ms ms')
    (key : String) : List.Forall₂ P (ms.remove key) (ms'.remove key) := by
  have hsplit := forall₂_split? hkey h key
  unfold remove
  generalize split? ms key = x at hsplit ⊢
  generalize split? ms' key = y at hsplit ⊢
  cases hsplit with
  | none => exact h
  | @some parts parts' hparts =>
    obtain ⟨pre, post⟩ := parts
    obtain ⟨pre', post'⟩ := parts'
    obtain ⟨hpre, hpost⟩ := hparts
    dsimp only at hpre hpost ⊢
    have hturned := List.forall₂_reverse_iff.mpr hpost
    generalize hr : post.reverse = r at hturned
    generalize hr' : post'.reverse = r' at hturned
    rw [List.reverse_eq_iff] at hr hr'
    subst hr hr'
    cases hturned with
    | nil => exact hpre
    | cons hlast hinit =>
      -- the last members move into the gap
      simp only [List.reverse_cons, List.getLast?_concat, List.dropLast_concat]
      exact List.rel_append hpre (.cons hlast (List.forall₂_reverse_iff.mpr hinit))

/-- Inserting a member for the same key. -/
theorem forall₂_insert (hkey : ∀ m m', P m m' → m.1 = m'.1) (h : List.Forall₂ P ms ms')
    {key : String} {j j' : Json} (hj : P (key, j) (key, j')) :
    List.Forall₂ P (insert ms key j) (insert ms' key j') := by
  induction h with
  | nil => exact .cons hj .nil
  | @cons m m' ms ms' hm hrest ih =>
    obtain ⟨k, v⟩ := m
    obtain ⟨k', v'⟩ := m'
    obtain rfl : k = k' := hkey _ _ hm
    rw [insert, insert]
    split
    · next heq => exact .cons (heq ▸ hj) hrest
    · exact .cons hm ih

/-- What is inserted is found. -/
theorem lookup_insert_self (ms : Members) (key : String) (j : Json) :
    lookup (insert ms key j) key = some j := by
  induction ms with
  | nil => simp [insert, lookup]
  | cons m ms ih =>
    obtain ⟨k, v⟩ := m
    rw [insert]
    split
    · next heq => simp [lookup, heq]
    · next hne =>
      rw [lookup, List.lookup_cons, beq_false_of_ne (Ne.symm hne)]
      exact ih

end Json.Members

/-! ## Variants -/

namespace Node

/-- Entries with the same key.  For the values, `R` says what may stand in place of what under the
name of a field. -/
def VariedEntry (R : String → Node → Node → Prop) (e e' : Node × Node) : Prop :=
  e.1 = e'.1 ∧ (e.2 = e'.2 ∨ ∃ name, e.1.text? = some name ∧ R name e.2 e'.2)

/-- Items for the fields with some names.  What stands behind them is the same. -/
def VariedItems (R : String → Node → Node → Prop) : List String → List Node → List Node → Prop
  | name :: names, n :: ns, n' :: ns' => (n = n' ∨ R name n n') ∧ VariedItems R names ns ns'
  | _, ns, ns' => ns = ns'

/-- Where no items are, none are varied. -/
theorem variedItems_nil {R : String → Node → Node → Prop} (names : List String) :
    VariedItems R names [] [] := by
  cases names <;> rfl

/-- Variants of items are as many as these. -/
theorem VariedItems.length_eq {R : String → Node → Node → Prop} {names : List String}
    {ns ns' : List Node} (h : VariedItems R names ns ns') : ns.length = ns'.length := by
  fun_induction VariedItems R names ns ns' with
  | case1 name names n ns n' ns' ih => rw [List.length_cons, List.length_cons, ih h.2]
  | case2 => rw [h]

/-- Two parts of documents that hold a record with fields of some names, and differ in the values
of these fields only. -/
inductive Varied (names : List String) (R : String → Node → Node → Prop) : Node → Node → Prop
  | same (n : Node) : Varied names R n n
  | mapping {tagged : Bool} {entries entries' : List (Node × Node)}
      (h : List.Forall₂ (VariedEntry R) entries entries') :
      Varied names R (.mapping tagged entries) (.mapping tagged entries')
  | sequence {tagged : Bool} {items items' : List Node} (h : VariedItems R names items items') :
      Varied names R (.sequence tagged items) (.sequence tagged items')

/-- Two lists whose items are related one by one. -/
inductive VariedList (P : Node → Node → Prop) : Node → Node → Prop
  | sequence {tagged : Bool} {items items' : List Node} (h : List.Forall₂ P items items') :
      VariedList P (.sequence tagged items) (.sequence tagged items')

section

variable {α β : Type} {n n' : Node} {A : α → α → Prop} {read : Node → Reading α}

/-- Variants of a record are both given, or both left out. -/
theorem Varied.isGiven_eq {names : List String} {R : String → Node → Node → Prop}
    (h : Varied names R n n') : n.isGiven = n'.isGiven := by
  cases h <;> rfl

/-- Lists are given. -/
theorem VariedList.isGiven_eq {P : Node → Node → Prop} (h : VariedList P n n') :
    n.isGiven = n'.isGiven := by
  cases h
  rfl

/-- A value that may be left out. -/
theorem both_optional (hgiven : n.isGiven = n'.isGiven) (hread : Both Eq A (read n) (read n')) :
    Both Eq (Option.Rel A) (n.optional read) (n'.optional read) := by
  unfold optional
  rw [hgiven]
  cases n'.isGiven with
  | error e => exact .error rfl
  | ok given =>
    cases given with
    | false => exact .ok .none
    | true => exact hread.map fun _ _ h => .some h

/-- Lists are read item by item. -/
theorem both_list {P : Node → Node → Prop} (h : VariedList P n n')
    (hread : ∀ m m', P m m' → Both Eq A (read m) (read m')) :
    Both Eq (List.Forall₂ A) (n.list read) (n'.list read) := by
  obtain ⟨hitems⟩ := h
  exact Both.mapM (hitems.imp hread)

end

end Node

/-! ## Records -/

section Fields

variable {α σ : Type} {src : Source} {R : String → Node → Node → Prop} {D : σ → σ → Prop}
  {name : String} {required : Bool} {read : Source → Node → Reading α} {put : σ → α → σ}

/-- A field keeps a relation of states, also if its value is varied. -/
def Field.Carries (f : Field σ) (src : Source) (R : String → Node → Node → Prop)
    (D : σ → σ → Prop) : Prop :=
  ∀ n n' s s', n = n' ∨ R f.name n n' → D s s' → Both Eq D (f.read src n s) (f.read src n' s')

/-- A field whose variants are read as related values. -/
theorem Field.Carries.of_read {A : α → α → Prop} (hA : ∀ a, A a a)
    (hread : ∀ n n', R name n n' → Both Eq A (read src n) (read src n'))
    (hput : ∀ s s' a a', D s s' → A a a' → D (put s a) (put s' a')) :
    Field.Carries ⟨name, required, fun src n s => put s <$> read src n⟩ src R D := by
  rintro n n' s s' (rfl | hvaried) hs
  · apply Both.map (Both.refl (fun _ => rfl) hA (read src n))
    exact fun a a' h => hput s s' a a' hs h
  · apply (hread n n' hvaried).map
    exact fun a a' h => hput s s' a a' hs h

/-- Two states that differ in one place, and hold related values there. -/
def SameBeside {β : Type} (get : σ → β) (set : σ → β → σ) (A : β → β → Prop) (s s' : σ) : Prop :=
  ∃ b, s' = set s b ∧ A (get s) b

/-- A state differs from itself in no place. -/
theorem SameBeside.refl {β : Type} {get : σ → β} {set : σ → β → σ} {A : β → β → Prop}
    (hset : ∀ s, set s (get s) = s) (hA : ∀ b, A b b) (s : σ) : SameBeside get set A s s :=
  ⟨get s, (hset s).symm, hA (get s)⟩

/-- A field with a place of its own, whose value is not varied. -/
theorem Field.Carries.beside {β : Type} {get : σ → β} {set : σ → β → σ} {A : β → β → Prop}
    (hR : ∀ n n', ¬ R name n n') (hset : ∀ s b a, put (set s b) a = set (put s a) b)
    (hget : ∀ s a, get (put s a) = get s) :
    Field.Carries ⟨name, required, fun src n s => put s <$> read src n⟩ src R
      (SameBeside get set A) := by
  apply Field.Carries.of_read (A := Eq) (fun _ => rfl)
  · exact fun n n' hvaried => absurd hvaried (hR n n')
  · rintro s _ a _ ⟨b, rfl, h⟩ rfl
    exact ⟨b, hset s b a, (hget s a).symm ▸ h⟩

/-- The field that puts values where the states may differ. -/
theorem Field.Carries.place {get : σ → α} {A : α → α → Prop} (hA : ∀ a, A a a)
    (hread : ∀ n n', R name n n' → Both Eq A (read src n) (read src n'))
    (hput : ∀ s a a', put (put s a) a' = put s a') (hget : ∀ s a, get (put s a) = a) :
    Field.Carries ⟨name, required, fun src n s => put s <$> read src n⟩ src R
      (SameBeside get put A) := by
  apply Field.Carries.of_read hA hread
  rintro s _ a a' ⟨b, rfl, -⟩ ha
  refine ⟨a', ?_, (hget s a).symm ▸ ha⟩
  rw [hput, hput]

end Fields

namespace Record

variable {σ : Type} {r : Record σ} {src : Source} {R : String → Node → Node → Prop}
  {D : σ → σ → Prop} {s s' : σ}

/-- All fields of a record keep a relation of states. -/
structure Carries (r : Record σ) (src : Source) (R : String → Node → Node → Prop)
    (D : σ → σ → Prop) : Prop where
  refl : ∀ s, D s s
  fields : ∀ f ∈ r.fields, f.Carries src R D

/-- Entries are read into related states, and the same names are seen. -/
theorem both_readEntries (hr : r.Carries src R D) (hsrc : ∀ yaml, src ≠ .aside yaml)
    {entries entries' : List (Node × Node)} {seen : List String}
    (h : List.Forall₂ (Node.VariedEntry R) entries entries') (hs : D s s') :
    Both Eq (fun p p' => p.1 = p'.1 ∧ D p.2 p'.2) (r.readEntries src entries seen s)
      (r.readEntries src entries' seen s') := by
  induction h generalizing seen s s' with
  | nil => exact .ok ⟨rfl, hs⟩
  | @cons e e' entries entries' hentry _ ih =>
    obtain ⟨key, value⟩ := e
    obtain ⟨_, value'⟩ := e'
    obtain ⟨rfl, hvalue⟩ := hentry
    simp only [readEntries]
    cases hf : r.field src key with
    | error e => exact .error rfl
    | ok f =>
      obtain ⟨hmem, hkey⟩ := field_eq_ok hsrc hf
      simp only [bind, Except.bind]
      split
      · exact .error rfl
      · -- the key is the name of the field, so the values are variants for it
        have hvaried : value = value' ∨ R f.name value value' := by
          obtain heq | ⟨name, hname, hvaried⟩ := hvalue
          · exact .inl heq
          · rw [hkey] at hname
            exact .inr (Option.some.inj hname ▸ hvaried)
        exact (hr.fields f hmem value value' s s' hvaried hs).bind fun _ _ h => ih h

/-- Items are read into related states, and the same items are left. -/
theorem both_readItems (hr : r.Carries src R D) {fields : List (Field σ)}
    (hfields : fields ⊆ r.fields) {index : Nat} {items items' : List Node}
    (h : Node.VariedItems R (fields.map Field.name) items items') (hs : D s s') :
    Both Eq (fun p p' => p.1 = p'.1 ∧ D p.2 p'.2) (r.readItems src fields index items s)
      (r.readItems src fields index items' s') := by
  induction fields generalizing index items items' s s' with
  | nil =>
    rw [List.map_nil, Node.VariedItems] at h
    · exact .ok ⟨h, hs⟩
    · exact nofun
  | cons f fields ih =>
    obtain ⟨hmem, hfields⟩ := List.cons_subset.mp hfields
    rw [List.map_cons] at h
    cases items with
    | nil =>
      cases items' with
      | nil =>
        -- both have run out of items
        simp only [readItems]
        split
        · exact .error rfl
        · exact ih hfields (Node.variedItems_nil _) hs
      | cons n' items' => cases h
    | cons n items =>
      cases items' with
      | nil => cases h
      | cons n' items' =>
        obtain ⟨hn, hitems⟩ := h
        simp only [readItems]
        apply (hr.fields f hmem n n' s s' hn hs).bind
        exact fun t t' ht => ih hfields hitems ht

/-- Records are read into related states. -/
theorem both_read {n n' : Node} (hr : r.Carries src R D) (hsrc : ∀ yaml, src ≠ .aside yaml)
    (h : n.Varied r.names R n') : Both Eq D (r.read src n) (r.read src n') := by
  cases h with
  | same => exact Both.refl (fun _ => rfl) hr.refl _
  | mapping hentries =>
    apply (both_readEntries hr hsrc hentries (hr.refl r.blank)).bind
    rintro ⟨seen, s⟩ ⟨_, s'⟩ ⟨rfl, hs⟩
    dsimp only
    split
    · exact .error rfl
    · exact .ok hs
  | @sequence tagged items items' hitems =>
    -- left items are counted, so both sequences have to be of one length
    simp only [read]
    split
    · exact .error rfl
    · have hlength : items.length = items'.length := hitems.length_eq
      apply (both_readItems hr (List.Subset.refl _) hitems (hr.refl r.blank)).bind
      rintro ⟨rest, s⟩ ⟨_, s'⟩ ⟨rfl, hs⟩
      dsimp only
      rw [hlength]
      split
      · exact .ok hs
      · exact .error rfl

end Record

end Promptwright
