import Mathlib.Data.List.Nodup
import Promptwright.Document.Record
import Promptwright.Proofs.Except

/-!
# Members of objects

Objects are read from documents by insertion, so no key is there twice, and options are taken out
of them one by one.  A member that is taken out leaves no other member with its key behind, and one
that stands at the end leaves the members before it in their order.

## Key results

- `keys_insert`: inserting keeps keys distinct
- `perm_cons_remove`: what is taken out and what is left are all members
- `remove_append_singleton`: the last member is taken out
- `wellFormed_of_json`: values in documents have distinct keys and finite numbers
-/

namespace Promptwright

namespace Json.Members

variable {ms : Members} {key : String}

/-- The keys of an object, in order. -/
def keys (ms : Members) : List String := ms.map Prod.fst

/-- The key of the first member comes first. -/
theorem keys_cons (m : String × Json) (ms : Members) : keys (m :: ms) = m.1 :: keys ms := rfl

/-- The keys of members after others. -/
theorem keys_append (ms ns : Members) : keys (ms ++ ns) = keys ms ++ keys ns := List.map_append

/-- A key without a value is not there. -/
theorem lookup_eq_none_iff : lookup ms key = none ↔ key ∉ ms.keys := by
  rw [lookup, List.lookup_eq_none_iff, keys]
  simp only [bne_iff_ne, List.mem_map, not_exists, not_and]
  exact ⟨fun h m hm heq => h m hm heq.symm, fun h m hm heq => h m hm heq.symm⟩

/-- The value of the last key, if it is not there before. -/
theorem lookup_append_singleton (h : key ∉ ms.keys) (j : Json) :
    lookup (ms ++ [(key, j)]) key = some j := by
  induction ms with
  | nil => simp [lookup]
  | cons m ms ih =>
    rw [keys_cons, List.mem_cons, not_or] at h
    have hne : (key == m.1) = false := by simpa using h.1
    rw [List.cons_append, lookup, List.lookup_cons, hne]
    exact ih h.2

/-- With distinct keys, a key has the value that stands with it. -/
theorem lookup_eq_some_iff {j : Json} (h : ms.keys.Nodup) :
    lookup ms key = some j ↔ (key, j) ∈ ms := by
  induction ms with
  | nil => simp [lookup]
  | cons m ms ih =>
    obtain ⟨k, v⟩ := m
    rw [keys_cons, List.nodup_cons] at h
    rw [lookup, List.lookup_cons, List.mem_cons, Prod.mk.injEq]
    by_cases hkey : key = k
    · subst hkey
      have hnot : (key, j) ∉ ms := fun hmem => h.1 (List.mem_map.mpr ⟨_, hmem, rfl⟩)
      simp [hnot, eq_comm]
    · have hne : (key == k) = false := by simpa using hkey
      rw [hne, or_iff_right (fun heq => hkey heq.1)]
      exact ih h.2

/-! ## Inserting -/

/-- Inserting adds the key at the end, unless it is there. -/
theorem keys_insert (ms : Members) (key : String) (j : Json) :
    (insert ms key j).keys = if key ∈ ms.keys then ms.keys else ms.keys ++ [key] := by
  induction ms with
  | nil => rfl
  | cons m ms ih =>
    obtain ⟨k, v⟩ := m
    rw [insert]
    split
    · next heq => simp [keys, heq]
    · next hne =>
      -- the first key is another one, so the others decide
      have hmem : key ∈ keys ((k, v) :: ms) ↔ key ∈ keys ms := by
        rw [keys_cons, List.mem_cons, or_iff_right (Ne.symm hne)]
      rw [keys_cons, ih]
      simp only [hmem]
      split <;> rfl

/-- Inserting keeps keys distinct. -/
theorem nodup_keys_insert (h : ms.keys.Nodup) (key : String) (j : Json) :
    (insert ms key j).keys.Nodup := by
  rw [keys_insert]
  split
  · exact h
  · next hkey =>
    rw [List.nodup_append]
    refine ⟨h, List.nodup_singleton key, ?_⟩
    rintro k hk _ hk' rfl
    exact hkey (List.mem_singleton.mp hk' ▸ hk)

/-- What is there after inserting was there before, or is what was inserted. -/
theorem mem_insert {m : String × Json} {j : Json} (h : m ∈ insert ms key j) :
    m ∈ ms ∨ m = (key, j) := by
  induction ms with
  | nil => exact .inr (List.mem_singleton.mp h)
  | cons m' ms ih =>
    obtain ⟨k, v⟩ := m'
    rw [insert] at h
    split at h
    · next heq =>
      obtain rfl | h := List.mem_cons.mp h
      · exact .inr (by rw [heq])
      · exact .inl (List.mem_cons_of_mem _ h)
    · obtain rfl | h := List.mem_cons.mp h
      · exact .inl List.mem_cons_self
      · exact (ih h).imp_left (List.mem_cons_of_mem _)

/-- A new key is inserted at the end. -/
theorem insert_of_not_mem (h : key ∉ ms.keys) (j : Json) : insert ms key j = ms ++ [(key, j)] := by
  induction ms with
  | nil => rfl
  | cons m ms ih =>
    rw [keys_cons, List.mem_cons, not_or] at h
    rw [insert, if_neg (Ne.symm h.1), ih h.2, List.cons_append]

/-! ## Taking out -/

/-- Splitting at a key. -/
theorem split?_eq_some {pre post : Members} (h : split? ms key = some (pre, post)) :
    ∃ j, ms = pre ++ (key, j) :: post := by
  induction ms generalizing pre with
  | nil => cases h
  | cons m ms ih =>
    obtain ⟨k, v⟩ := m
    rw [split?] at h
    split at h
    · next heq =>
      cases h
      exact ⟨v, by rw [heq, List.nil_append]⟩
    · obtain ⟨⟨pre', post'⟩, hsplit, heq⟩ := Option.map_eq_some_iff.mp h
      cases heq
      obtain ⟨j, rfl⟩ := ih hsplit
      exact ⟨j, rfl⟩

/-- There is no splitting at a key that is not there. -/
theorem split?_eq_none_iff : split? ms key = none ↔ key ∉ ms.keys := by
  induction ms with
  | nil => simp [split?, keys]
  | cons m ms ih =>
    obtain ⟨k, v⟩ := m
    rw [split?, keys_cons, List.mem_cons, not_or]
    split
    · next heq => simp [heq]
    · next hne => rw [Option.map_eq_none_iff, ih]; exact ⟨fun h => ⟨Ne.symm hne, h⟩, And.right⟩

/-- Nothing is taken out for a key that is not there. -/
theorem remove_of_not_mem (h : key ∉ ms.keys) : ms.remove key = ms := by
  rw [remove, split?_eq_none_iff.mpr h]

/-- The members are the one that is taken out and those that are left. -/
theorem perm_cons_remove (h : key ∈ ms.keys) :
    ∃ j, ms.Perm ((key, j) :: ms.remove key) := by
  cases hsplit : split? ms key with
  | none => exact absurd h (split?_eq_none_iff.mp hsplit)
  | some parts =>
    obtain ⟨pre, post⟩ := parts
    obtain ⟨j, hms⟩ := split?_eq_some hsplit
    refine ⟨j, ?_⟩
    simp only [remove, hsplit]
    rw [hms]
    refine List.perm_middle.trans (.cons _ ?_)
    split
    · next hlast => rw [List.getLast?_eq_none_iff.mp hlast, List.append_nil]
    · next last hlast =>
      -- the last member moves into the gap
      obtain ⟨post, rfl⟩ := List.getLast?_eq_some_iff.mp hlast
      rw [List.dropLast_concat]
      exact (List.perm_append_singleton last post).append_left pre

/-- What is left was there before. -/
theorem keys_remove_subset (ms : Members) (key : String) : (ms.remove key).keys ⊆ ms.keys := by
  by_cases h : key ∈ ms.keys
  · obtain ⟨j, hperm⟩ := perm_cons_remove h
    intro k hk
    exact (hperm.map Prod.fst).mem_iff.mpr (List.mem_cons_of_mem _ hk)
  · rw [remove_of_not_mem h]
    exact fun _ hk => hk

/-- If keys are distinct, then no member with a key is left after it is taken out, and those that
are left have distinct keys. -/
theorem nodup_keys_remove (h : ms.keys.Nodup) (key : String) :
    key ∉ (ms.remove key).keys ∧ (ms.remove key).keys.Nodup := by
  by_cases hkey : key ∈ ms.keys
  · obtain ⟨j, hperm⟩ := perm_cons_remove hkey
    exact List.nodup_cons.mp ((hperm.map Prod.fst).nodup_iff.mp h)
  · rw [remove_of_not_mem hkey]
    exact ⟨hkey, h⟩

/-- A key that is not there is not there after another one is taken out. -/
theorem not_mem_keys_remove (h : key ∉ ms.keys) (other : String) :
    key ∉ (ms.remove other).keys :=
  fun hkey => h (keys_remove_subset ms other hkey)

/-- Other keys keep their values. -/
theorem lookup_remove_of_ne {other : String} (h : ms.keys.Nodup) (hne : other ≠ key) :
    lookup (ms.remove key) other = lookup ms other := by
  by_cases hkey : key ∈ ms.keys
  · obtain ⟨j, hperm⟩ := perm_cons_remove hkey
    -- the order has changed, but with distinct keys a lookup does not see it
    ext j'
    rw [lookup_eq_some_iff h, lookup_eq_some_iff (nodup_keys_remove h key).2, hperm.mem_iff,
      List.mem_cons, or_iff_right (by simp [hne])]
  · rw [remove_of_not_mem hkey]

/-- The last member is taken out. -/
theorem remove_append_singleton (h : key ∉ ms.keys) (j : Json) :
    remove (ms ++ [(key, j)]) key = ms := by
  have hsplit : split? (ms ++ [(key, j)]) key = some (ms, []) := by
    induction ms with
    | nil => simp [split?]
    | cons m ms ih =>
      rw [keys_cons, List.mem_cons, not_or] at h
      rw [List.cons_append, split?, if_neg (Ne.symm h.1), ih h.2]
      rfl
  rw [remove, hsplit]
  rfl

end Json.Members

/-! ## Values in documents -/

namespace Json

mutual

/-- A value that documents can hold: no object has a key twice, and every number is finite. -/
def WellFormed : Json → Prop
  | .number (.float x) => x.isFinite = true
  | .array items => WellFormedItems items
  | .object members => (Members.keys members).Nodup ∧ WellFormedMembers members
  | _ => True
  termination_by structural j => j

/-- Items that documents can hold. -/
def WellFormedItems : List Json → Prop
  | [] => True
  | j :: js => WellFormed j ∧ WellFormedItems js
  termination_by structural js => js

/-- Members with values that documents can hold. -/
def WellFormedMembers : List (String × Json) → Prop
  | [] => True
  | (_, j) :: ms => WellFormed j ∧ WellFormedMembers ms
  termination_by structural ms => ms

end

/-- Items one by one. -/
theorem wellFormedItems_iff {js : List Json} :
    WellFormedItems js ↔ ∀ j ∈ js, j.WellFormed := by
  induction js with
  | nil => simp [WellFormedItems]
  | cons j js ih => rw [WellFormedItems, ih, List.forall_mem_cons]

/-- Members one by one. -/
theorem wellFormedMembers_iff {ms : Members} :
    WellFormedMembers ms ↔ ∀ m ∈ ms, m.2.WellFormed := by
  induction ms with
  | nil => simp [WellFormedMembers]
  | cons m ms ih => rw [WellFormedMembers, ih, List.forall_mem_cons]

/-- The empty object. -/
theorem wellFormed_empty : WellFormed (.object []) := ⟨List.nodup_nil, trivial⟩

/-- Inserting a value that documents can hold. -/
theorem wellFormed_insert {ms : Members} (h : WellFormed (.object ms)) (key : String) {j : Json}
    (hj : j.WellFormed) : WellFormed (.object (Members.insert ms key j)) := by
  obtain ⟨hkeys, hms⟩ := h
  refine ⟨Members.nodup_keys_insert hkeys key j, wellFormedMembers_iff.mpr fun m hm => ?_⟩
  obtain hm | rfl := Members.mem_insert hm
  · exact wellFormedMembers_iff.mp hms m hm
  · exact hj

end Json

namespace Node

open Json (WellFormed WellFormedItems wellFormed_empty wellFormed_insert)

/-- The value of an atom. -/
theorem wellFormed_of_ofAtom {a : Atom} {j : Json} (h : ofAtom a = .ok j) : j.WellFormed := by
  cases a with
  | float x =>
    cases h
    split
    · next hx => exact hx
    · trivial
  | wide n => cases h
  | null | bool _ | integer _ | string _ =>
    cases h
    trivial

mutual

/-- What documents hold as values. -/
theorem wellFormed_of_json {j : Json} : (n : Node) → n.json = .ok j → j.WellFormed
  | .absent, h => by
    cases h
    trivial
  | .fault, h => by cases h
  | .atom a, h => wellFormed_of_ofAtom h
  | .scalar s, h => by
    rw [json] at h
    split at h
    · cases h
    · obtain ⟨a, -, h⟩ := bind_eq_ok h
      exact wellFormed_of_ofAtom h
  | .sequence tagged items, h => by
    rw [json] at h
    split at h
    · cases h
    · obtain ⟨js, hjs, h⟩ := bind_eq_ok h
      cases h
      exact wellFormed_of_jsonItems items hjs
  | .mapping tagged entries, h => by
    rw [json] at h
    split at h
    · cases h
    · obtain ⟨ms, hms, h⟩ := bind_eq_ok h
      cases h
      exact wellFormed_of_jsonMembers entries wellFormed_empty hms
  termination_by structural n => n

/-- Their items. -/
theorem wellFormed_of_jsonItems {js : List Json} :
    (ns : List Node) → jsonItems ns = .ok js → WellFormedItems js
  | [], h => by
    cases h
    trivial
  | n :: ns, h => by
    rw [jsonItems] at h
    obtain ⟨j, hj, h⟩ := bind_eq_ok h
    obtain ⟨js, hjs, h⟩ := bind_eq_ok h
    cases h
    exact ⟨wellFormed_of_json n hj, wellFormed_of_jsonItems ns hjs⟩
  termination_by structural ns => ns

/-- Their members, which are put after others. -/
theorem wellFormed_of_jsonMembers {done ms : Json.Members} :
    (es : List (Node × Node)) → WellFormed (.object done) → jsonMembers es done = .ok ms →
      WellFormed (.object ms)
  | [], hdone, h => by
    cases h
    exact hdone
  | (k, v) :: es, hdone, h => by
    rw [jsonMembers] at h
    obtain ⟨key, -, h⟩ := bind_eq_ok h
    obtain ⟨j, hj, h⟩ := bind_eq_ok h
    -- a key that comes again gets a new value, so keys stay distinct
    exact wellFormed_of_jsonMembers es (wellFormed_insert hdone key (wellFormed_of_json v hj)) h
  termination_by structural es => es

end

end Node

end Promptwright
