import Mathlib.Data.List.Pairwise
import Promptwright.Proofs.Document.Records
import Promptwright.Proofs.Json.Members
import Promptwright.Proofs.Outcome

/-!
# The order of members

The members of an object may come in any order.  Looking a key up does not depend on it, and taking
a key out leaves the same members.  A record is read from them in the order of the text, and which
mismatch is found first may well depend on it, but not whether there is one, nor what is read.

## Key results

- `remove_perm_filter`: what is left when a key is taken out
- `readEntries_eq_foldlM`: entries are read one after the other
- `agree_readMapping`: the order of entries does not matter
-/

namespace Promptwright

/-! ## Members -/

namespace Json.Members

variable {ms ns : Members}

/-- All members have other keys than one that is not there. -/
theorem filter_ne_eq_self {key : String} (h : key ∉ ms.keys) :
    ms.filter (fun m => m.1 ≠ key) = ms := by
  rw [List.filter_eq_self]
  intro m hm
  have hne : m.1 ≠ key := fun heq => h (heq ▸ List.mem_map_of_mem hm)
  simpa using hne

/-- What is left when a key is taken out are the members with other keys. -/
theorem remove_perm_filter (h : ms.keys.Nodup) (key : String) :
    (ms.remove key).Perm (ms.filter fun m => m.1 ≠ key) := by
  by_cases hkey : key ∈ ms.keys
  · obtain ⟨j, hperm⟩ := perm_cons_remove hkey
    have hfilter := hperm.filter fun m => m.1 ≠ key
    rw [List.filter_cons_of_neg (by simp), filter_ne_eq_self (nodup_keys_remove h key).1]
      at hfilter
    exact hfilter.symm
  · rw [remove_of_not_mem hkey, filter_ne_eq_self hkey]

/-- Taking a key out of the same members leaves the same members. -/
theorem remove_perm (h : ms.keys.Nodup) (hperm : ms.Perm ns) (key : String) :
    (ms.remove key).Perm (ns.remove key) := by
  have h' : ns.keys.Nodup := (hperm.map Prod.fst).nodup_iff.mp h
  exact (remove_perm_filter h key).trans
    ((hperm.filter _).trans (remove_perm_filter h' key).symm)

/-- A key has the same value in the same members. -/
theorem lookup_eq_of_perm (h : ms.keys.Nodup) (hperm : ms.Perm ns) (key : String) :
    lookup ms key = lookup ns key := by
  have h' : ns.keys.Nodup := (hperm.map Prod.fst).nodup_iff.mp h
  ext j
  rw [lookup_eq_some_iff h, lookup_eq_some_iff h', hperm.mem_iff]

end Json.Members

/-- The entries of an object are those of its members. -/
theorem Node.ofMembers_eq_map (ms : Json.Members) :
    ofMembers ms = ms.map fun m => (.atom (.string m.1), ofJson m.2) := by
  induction ms with
  | nil => rfl
  | cons m ms ih => rw [ofMembers, ih, List.map_cons]

/-! ## Fields -/

section Fields

variable {α β σ : Type}

/-- Two fields can be read one after the other in either order. -/
def Field.Commute (f g : Field σ) : Prop :=
  ∀ src v w s, Agree Eq (f.read src v s >>= g.read src w) (g.read src w s >>= f.read src v)

/-- Fields that put values in different places. -/
theorem Field.commute_put {name name' : String} {required required' : Bool}
    {read : Source → Node → Reading α} {put : σ → α → σ} {read' : Source → Node → Reading β}
    {put' : σ → β → σ} (h : ∀ s a b, put' (put s a) b = put (put' s b) a) :
    Commute ⟨name, required, fun src n s => put s <$> read src n⟩
      ⟨name', required', fun src n s => put' s <$> read' src n⟩ := by
  intro src v w s
  dsimp only
  cases read src v with
  | error e => cases read' src w <;> exact .error trivial
  | ok a =>
    cases read' src w with
    | error e => exact .error trivial
    | ok b => exact .ok (h s a b)

/-- Two fields can be read in either order, whichever comes first. -/
theorem Field.Commute.symm {f g : Field σ} (h : f.Commute g) : g.Commute f :=
  fun src v w s => (h src w v s).flip fun _ _ heq => heq.symm

end Fields

/-! ## Records -/

namespace Record

variable {σ : Type} {r : Record σ} {src : Source}

/-- The fields of a record can be read in any order. -/
def Unordered (r : Record σ) : Prop := r.fields.Pairwise Field.Commute

/-- Different fields of a record can be read in either order. -/
theorem Unordered.commute (hr : r.Unordered) {f g : Field σ} (hf : f ∈ r.fields)
    (hg : g ∈ r.fields) (hne : f.name ≠ g.name) : f.Commute g := by
  have hsymm : Std.Symm (Field.Commute : Field σ → Field σ → Prop) := ⟨fun _ _ h => h.symm⟩
  apply List.Pairwise.forall hr hf hg
  exact fun heq => hne (congrArg Field.name heq)

/-- Reads one entry into a state. -/
def readEntry (r : Record σ) (src : Source) (p : List String × σ) (e : Node × Node) :
    Reading (List String × σ) := do
  let f ← r.field src e.1
  if p.1.contains f.name then .error (.duplicateField f.name)
  else do
    let s ← f.read src e.2 p.2
    return (f.name :: p.1, s)

/-- Entries are read one after the other. -/
theorem readEntries_eq_foldlM (entries : List (Node × Node)) (seen : List String) (s : σ) :
    r.readEntries src entries seen s = entries.foldlM (r.readEntry src) (seen, s) := by
  induction entries generalizing seen s with
  | nil => rfl
  | cons e entries ih =>
    obtain ⟨key, value⟩ := e
    rw [readEntries, List.foldlM_cons, readEntry]
    cases r.field src key with
    | error e => rfl
    | ok f =>
      simp only [bind, Except.bind]
      split
      · rfl
      · cases f.read src value s with
        | error e => rfl
        | ok s' => exact ih _ _

/-- States that hold the same, after the same names in whatever order. -/
def SameState (p q : List String × σ) : Prop := p.1.Perm q.1 ∧ p.2 = q.2

/-- The order of the names that were seen does not matter. -/
theorem agree_readEntry (e : Node × Node) {p q : List String × σ} (h : SameState p q) :
    Agree SameState (r.readEntry src p e) (r.readEntry src q e) := by
  obtain ⟨seen, s⟩ := p
  obtain ⟨seen', s'⟩ := q
  obtain ⟨hseen, rfl⟩ := h
  have hcontains : ∀ name, seen.contains name = seen'.contains name := fun name =>
    hseen.contains_eq
  unfold readEntry
  cases r.field src e.1 with
  | error e => exact .error trivial
  | ok f =>
    simp only [bind, Except.bind, hcontains]
    split
    · exact .error trivial
    · cases f.read src e.2 s with
      | error e => exact .error trivial
      | ok s' => exact .ok ⟨hseen.cons _, rfl⟩

/-- What reading an entry does to a state. -/
theorem readEntry_eq_ok_iff {e : Node × Node} {seen : List String} {s : σ} {q : List String × σ} :
    r.readEntry src (seen, s) e = .ok q ↔
      ∃ f s', r.field src e.1 = .ok f ∧ f.name ∉ seen ∧ f.read src e.2 s = .ok s' ∧
        q = (f.name :: seen, s') := by
  constructor
  · intro h
    obtain ⟨f, hf, h⟩ := bind_eq_ok h
    dsimp only at h
    -- a name that has been there before is an error
    split at h
    · cases h
    · next hnew =>
      obtain ⟨s', hs', h⟩ := bind_eq_ok h
      cases h
      exact ⟨f, s', hf, by simpa using hnew, hs', rfl⟩
  · rintro ⟨f, s', hf, hnew, hs', rfl⟩
    have hcontains : seen.contains f.name = false := by simpa using hnew
    simp only [readEntry, hf, hcontains, hs', bind, Except.bind]
    rfl

/-- Two entries that can be read in one order can be read in the other one. -/
theorem exists_readEntry_swap (hr : r.Unordered) (hsrc : ∀ yaml, src ≠ .aside yaml)
    {e e' : Node × Node} {p q : List String × σ}
    (h : (r.readEntry src p e >>= fun p' => r.readEntry src p' e') = .ok q) :
    ∃ q', (r.readEntry src p e' >>= fun p' => r.readEntry src p' e) = .ok q' ∧ SameState q q' := by
  obtain ⟨seen, s⟩ := p
  obtain ⟨p', hfirst, hsecond⟩ := bind_eq_ok h
  obtain ⟨f, s₁, hf, hfnew, hs₁, rfl⟩ := readEntry_eq_ok_iff.mp hfirst
  obtain ⟨g, s₂, hg, hgnew, hs₂, rfl⟩ := readEntry_eq_ok_iff.mp hsecond
  rw [List.mem_cons, not_or] at hgnew
  -- the fields differ, so the second one can be read first
  have hcommute := hr.commute (field_eq_ok hsrc hf).1 (field_eq_ok hsrc hg).1 (Ne.symm hgnew.1)
  obtain ⟨_, hswap, rfl⟩ := (hcommute src e.2 e'.2 s).exists_eq_ok ((bind_of_eq_ok hs₁ _).trans hs₂)
  obtain ⟨s₃, hs₃, hs₂'⟩ := bind_eq_ok hswap
  have hfnew' : f.name ∉ g.name :: seen := by
    rw [List.mem_cons, not_or]
    exact ⟨Ne.symm hgnew.1, hfnew⟩
  refine ⟨(f.name :: g.name :: seen, s₂), ?_, .swap _ _ _, rfl⟩
  rw [bind_of_eq_ok (readEntry_eq_ok_iff.mpr ⟨g, s₃, hg, hgnew.2, hs₃, rfl⟩)]
  exact readEntry_eq_ok_iff.mpr ⟨f, s₂, hf, hfnew', hs₂', rfl⟩

/-- Two entries can be read in either order. -/
theorem agree_readEntry_swap (hr : r.Unordered) (hsrc : ∀ yaml, src ≠ .aside yaml)
    (e e' : Node × Node) (p : List String × σ) :
    Agree SameState (r.readEntry src p e >>= fun q => r.readEntry src q e')
      (r.readEntry src p e' >>= fun q => r.readEntry src q e) := by
  apply agree_of_ok
  · exact fun q hq => exists_readEntry_swap hr hsrc hq
  · intro q hq
    obtain ⟨q', hq', -⟩ := exists_readEntry_swap hr hsrc hq
    exact ⟨q', hq'⟩

/-- The order of entries does not matter to whether a record is read from them, and which one. -/
theorem agree_readMapping (hr : r.Unordered) (hsrc : ∀ yaml, src ≠ .aside yaml)
    {entries entries' : List (Node × Node)} (h : entries.Perm entries') :
    Agree Eq (r.readMapping src entries) (r.readMapping src entries') := by
  have hread : Agree SameState (r.readEntries src entries [] r.blank)
      (r.readEntries src entries' [] r.blank) := by
    rw [readEntries_eq_foldlM, readEntries_eq_foldlM]
    apply agree_foldlM_perm _ _ (fun e _ _ => agree_readEntry e) (agree_readEntry_swap hr hsrc) h
    · exact fun p => ⟨.refl _, rfl⟩
    · exact fun p q t hpq hqt => ⟨hpq.1.trans hqt.1, hpq.2.trans hqt.2⟩
  apply hread.bind
  rintro ⟨seen, s⟩ ⟨seen', _⟩ ⟨hseen, rfl⟩
  -- it is only asked which names were seen, not when
  have hcontains : ∀ name, seen.contains name = seen'.contains name := fun name =>
    hseen.contains_eq
  simp only [hcontains]
  split
  · exact .error trivial
  · exact .ok rfl

end Record

end Promptwright
