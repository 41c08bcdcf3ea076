import Promptwright.Proofs.Except
import Promptwright.Prompt.Draft

/-!
# Records and the parts of documents

A record is read in one walk over a document, with a state that every field changes.  Here that
walk is taken apart again: a field holds what the part with its name reads as, wherever that part
stands among the others, and what it held at the start if there is no such part.

## Key results

- `text_eq_ok_iff`: texts
- `forall₂_of_list`: lists keep the number and the order of their items
- `readPart_of_read`: what a field of a record holds
-/

namespace Promptwright

namespace Node

variable {α : Type} {n : Node}

/-! ## Values -/

/-- What is refused is not read. -/
theorem refuse_ne_ok (n : Node) (expected : String) (a : α) : n.refuse expected ≠ .ok a := by
  cases n with
  | scalar s =>
    intro h
    obtain ⟨_, -, h⟩ := bind_eq_ok h
    cases h
  | absent | fault | atom _ | sequence _ _ | mapping _ _ => exact nofun

/-- The text of a node that has one. -/
def text? : Node → Option String
  | .atom (.string s) => some s
  | .scalar s => some s.text
  | _ => none

/-- A text is read where there is one. -/
theorem text_eq_ok_iff {expected s : String} : n.text expected = .ok s ↔ n.text? = some s := by
  fun_cases text? n with
  | case1 s' => simp [text]
  | case2 s' => simp [text]
  | case3 _ hatom hscalar =>
    rw [text]
    · exact iff_of_false (refuse_ne_ok _ _ _) (Option.some_ne_none s).symm
    · exact hatom
    · exact hscalar

/-- The items of a list. -/
def items : Node → List Node
  | .sequence _ ns => ns
  | _ => []

/-- A list has a value for every item, in their order. -/
theorem forall₂_of_list {read : Node → Reading α} {as : List α} (h : n.list read = .ok as) :
    List.Forall₂ (fun m a => read m = .ok a) n.items as := by
  unfold list at h
  split at h
  · exact mapM_eq_ok h
  · cases h
    exact .nil
  · split at h
    · cases h
      exact .nil
    · exact (refuse_ne_ok _ _ _ h).elim
  · exact (refuse_ne_ok _ _ _ h).elim

/-- A value that may be left out is left out, or read. -/
theorem optional_eq_ok {read : Node → Reading α} {x : Option α} (h : n.optional read = .ok x) :
    (n.isGiven = .ok false ∧ x = none) ∨
      ∃ a, n.isGiven = .ok true ∧ x = some a ∧ read n = .ok a := by
  obtain ⟨given, hgiven, h⟩ := bind_eq_ok h
  cases given with
  | false =>
    cases h
    exact .inl ⟨hgiven, rfl⟩
  | true =>
    obtain ⟨a, ha, h⟩ := map_eq_ok h
    exact .inr ⟨a, hgiven, h.symm, ha⟩

/-- A scalar that means null. -/
theorem json_scalar_null {s : Scalar} (hlocal : Scalar.isLocalTag s.tag = false)
    (h : s.atom? = .ok .null) : (Node.scalar s).json = .ok .null := by
  rw [json, hlocal, Scalar.atom, h]
  rfl

/-- What is left out is null. -/
theorem json_of_not_given (h : n.isGiven = .ok false) : n.json = .ok .null := by
  unfold isGiven at h
  split at h
  · rfl
  · cases h
  · rfl
  · next s =>
    split at h
    · cases h
    · next hplain =>
      have hplain : s.style = .plain := not_not.mp hplain
      split at h
      -- without a tag, nothing and the words for null are left out
      · next htag =>
        have hnull : (s.text.isEmpty || Scalar.isNullWord s.text) = true :=
          Bool.not_inj (Except.ok.inj h)
        refine json_scalar_null (by rw [htag]; rfl) ?_
        simp only [Scalar.atom?, htag, hplain, if_true, Scalar.plainAtom, hnull]
      -- with a tag, it is the one of null
      · next tag htag =>
        split at h
        · cases h
        · next htag' =>
          obtain rfl : tag = Scalar.nullTag := not_not.mp htag'
          split at h
          · next hword =>
            refine json_scalar_null (by rw [htag]; decide) ?_
            simp [Scalar.atom?, htag, hword, Scalar.nullTag, Scalar.boolTag, Scalar.intTag,
              Scalar.floatTag]
          · cases h
  · cases h

/-! ## Parts -/

/-- The part of a document that a record with fields of some names reads under a name: the value of
the first entry with that key, or in a list the item at the place of the name. -/
def part? (names : List String) (name : String) : Node → Option Node
  | .mapping _ entries => (entries.find? fun e => e.1.text? == some name).map Prod.snd
  | .sequence _ items => items[names.idxOf name]?
  | _ => none

/-- The value of a part that may be missing. -/
inductive ReadPart (read : Node → Reading α) (missing : α) : Option Node → α → Prop
  | missing : ReadPart read missing none missing
  | given {m : Node} {a : α} (h : read m = .ok a) : ReadPart read missing (some m) a

end Node

/-! ## Fields -/

section Fields

variable {α β σ : Type}

/-- A field puts what it reads where `get` finds it. -/
def Field.Sets (f : Field σ) (get : σ → α) (read : Source → Node → Reading α) : Prop :=
  ∀ src n s s', f.read src n s = .ok s' → read src n = .ok (get s')

/-- A field leaves what `get` finds. -/
def Field.Keeps (f : Field σ) (get : σ → α) : Prop :=
  ∀ src n s s', f.read src n s = .ok s' → get s' = get s

/-- A field that puts a value in its place. -/
@[simp] theorem Field.sets_put {name : String} {required : Bool} {get : σ → α}
    {read : Source → Node → Reading α} {put : σ → α → σ} (h : ∀ s a, get (put s a) = a) :
    Field.Sets ⟨name, required, fun src n s => put s <$> read src n⟩ get read := by
  intro src n s s' hs
  obtain ⟨a, ha, rfl⟩ := map_eq_ok hs
  rw [h, ha]

/-- A field that puts a value in another place. -/
@[simp] theorem Field.keeps_put {name : String} {required : Bool} {get : σ → α}
    {read : Source → Node → Reading β} {put : σ → β → σ} (h : ∀ s b, get (put s b) = get s) :
    Field.Keeps ⟨name, required, fun src n s => put s <$> read src n⟩ get := by
  intro src n s s' hs
  obtain ⟨b, -, rfl⟩ := map_eq_ok hs
  exact h s b

/-- A record keeps the value of the field with a name in a place of its own. -/
structure Record.Keeps (r : Record σ) (name : String) (get : σ → α)
    (read : Source → Node → Reading α) : Prop where
  names : r.names.Nodup
  sets : ∀ f ∈ r.fields, f.name = name → f.Sets get read
  keeps : ∀ f ∈ r.fields, f.name ≠ name → f.Keeps get

end Fields

/-! ## Reading -/

namespace Record

variable {α σ : Type} {r : Record σ} {src : Source} {name : String} {get : σ → α}
  {read : Source → Node → Reading α} {s s' : σ}

/-- The field that a key names is a field of the record with that name. -/
theorem field_eq_ok {key : Node} {f : Field σ} (hsrc : ∀ yaml, src ≠ .aside yaml)
    (h : r.field src key = .ok f) : f ∈ r.fields ∧ key.text? = some f.name := by
  unfold field at h
  split at h
  · next yaml => exact (hsrc yaml rfl).elim
  · obtain ⟨name, hname, h⟩ := bind_eq_ok h
    split at h
    · next hfind =>
      cases h
      have heq : f.name = name := by simpa using List.find?_some hfind
      exact ⟨List.mem_of_find?_eq_some hfind, heq ▸ Node.text_eq_ok_iff.mp hname⟩
    · cases h

/-- What the entries of a mapping leave in a field.  A name that was seen does not come again. -/
theorem readPart_of_readEntries (hr : r.Keeps name get read) (hsrc : ∀ yaml, src ≠ .aside yaml)
    {entries : List (Node × Node)} {seen seen' : List String}
    (h : r.readEntries src entries seen s = .ok (seen', s')) :
    (name ∈ seen → get s' = get s) ∧
      (name ∉ seen → Node.ReadPart (read src) (get s)
        ((Node.mapping false entries).part? r.names name) (get s')) := by
  -- on the entries, for all names seen so far and all states: both change from entry to entry
  induction entries generalizing seen s with
  | nil =>
    cases h
    exact ⟨fun _ => rfl, fun _ => .missing⟩
  | cons e entries ih =>
    obtain ⟨key, value⟩ := e
    rw [readEntries] at h
    obtain ⟨f, hf, h⟩ := bind_eq_ok h
    obtain ⟨hmem, hkey⟩ := field_eq_ok hsrc hf
    split at h
    · cases h
    · next hnew =>
      have hnew : f.name ∉ seen := by simpa using hnew
      obtain ⟨s₁, hs₁, h⟩ := bind_eq_ok h
      obtain ⟨hseen, hpart⟩ := ih h
      by_cases hname : f.name = name
      · -- this is the entry, and the rest leaves its value alone
        subst hname
        refine ⟨fun hin => (hnew hin).elim, fun _ => ?_⟩
        have hvalue := hr.sets f hmem rfl _ _ _ _ hs₁
        rw [← hseen List.mem_cons_self] at hvalue
        rw [Node.part?, List.find?_cons_of_pos (by simp [hkey])]
        exact .given hvalue
      -- another field: neither the value nor the part that it comes from is touched
      · have hkept := hr.keeps f hmem hname _ _ _ _ hs₁
        rw [hkept, List.mem_cons, or_iff_right (Ne.symm hname)] at hseen hpart
        refine ⟨hseen, fun hin => ?_⟩
        rw [Node.part?, List.find?_cons_of_neg (by simpa [hkey] using hname)]
        exact hpart hin

/-- What the items of a list leave in a field, from some field on. -/
theorem readPart_of_readItems (hr : r.Keeps name get read) {fields : List (Field σ)} {index : Nat}
    {items rest : List Node} (hfields : fields ⊆ r.fields) (hnames : (fields.map Field.name).Nodup)
    (h : r.readItems src fields index items s = .ok (rest, s')) :
    (name ∉ fields.map Field.name → get s' = get s) ∧
      (name ∈ fields.map Field.name → Node.ReadPart (read src) (get s)
        ((Node.sequence false items).part? (fields.map Field.name) name) (get s')) := by
  -- on the fields, each of which takes the first of the items that are left
  induction fields generalizing index items s with
  | nil =>
    rw [readItems] at h
    cases h
    exact ⟨fun _ => rfl, nofun⟩
  | cons f fields ih =>
    rw [List.map_cons, List.nodup_cons] at hnames
    obtain ⟨hmem, hfields⟩ := List.cons_subset.mp hfields
    rw [List.map_cons, List.mem_cons, not_or]
    cases items with
    | nil =>
      rw [readItems] at h
      split at h
      · cases h
      · obtain ⟨hother, hpart⟩ := ih hfields hnames.2 h
        refine ⟨fun hname => hother hname.2, fun hname => ?_⟩
        by_cases hin : name ∈ fields.map Field.name
        · simpa [Node.part?] using hpart hin
        · rw [hother hin]
          simpa [Node.part?] using Node.ReadPart.missing
    | cons n items =>
      rw [readItems] at h
      obtain ⟨s₁, hs₁, h⟩ := bind_eq_ok h
      obtain ⟨hother, hpart⟩ := ih hfields hnames.2 h
      by_cases hname : f.name = name
      · subst hname
        refine ⟨fun hne => (hne.1 rfl).elim, fun _ => ?_⟩
        have hvalue := hr.sets f hmem rfl _ _ _ _ hs₁
        rw [← hother hnames.1] at hvalue
        rw [Node.part?, List.idxOf_cons_self]
        exact .given hvalue
      · have hkept := hr.keeps f hmem hname _ _ _ _ hs₁
        rw [hkept] at hother hpart
        refine ⟨fun hne => hother hne.2, fun hin => ?_⟩
        rw [Node.part?, List.idxOf_cons_ne _ hname]
        exact hpart (hin.resolve_left (Ne.symm hname))

/-- What a field of a record holds: the value of the part with its name, or what it held at the
start if there is none. -/
theorem readPart_of_read {n : Node} (hr : r.Keeps name get read) (hname : name ∈ r.names)
    (hsrc : ∀ yaml, src ≠ .aside yaml) (h : r.read src n = .ok s) :
    Node.ReadPart (read src) (get r.blank) (n.part? r.names name) (get s) := by
  have hmapping : ∀ {entries}, r.readMapping src entries = .ok s →
      Node.ReadPart (read src) (get r.blank) ((Node.mapping false entries).part? r.names name)
        (get s) := by
    intro entries h
    obtain ⟨⟨seen, s₁⟩, hs₁, h⟩ := bind_eq_ok h
    dsimp only at h
    split at h
    · cases h
    · cases h
      exact (readPart_of_readEntries hr hsrc hs₁).2 List.not_mem_nil
  unfold Record.read at h
  -- a mapping is read by names, and a sequence by the places of its items
  split at h
  · exact hmapping h
  · split at h
    · exact (Node.refuse_ne_ok _ _ _ h).elim
    · obtain ⟨⟨rest, s₁⟩, hs₁, h⟩ := bind_eq_ok h
      dsimp only at h
      split at h
      · cases h
        exact (readPart_of_readItems hr (List.Subset.refl _) hr.names hs₁).2 hname
      · cases h
  · exact hmapping h
  · split at h
    · exact hmapping h
    · exact (Node.refuse_ne_ok _ _ _ h).elim
  · exact (Node.refuse_ne_ok _ _ _ h).elim

end Record

end Promptwright
