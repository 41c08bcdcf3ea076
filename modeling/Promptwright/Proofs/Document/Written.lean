import Promptwright.Proofs.Document.Spelling

/-!
# Written records

A record is written as an object with a member for every field, where fields without a value may be
left out.  It does not matter in which order the members are: reading what spells the object gives
the record back.

## Key results

- `Record.Written`: the members that are written for some fields
- `readEntries_of_written`: the members are read one after the other
- `read_of_written`: the whole record
-/

namespace Promptwright

namespace Json

variable {α : Type}

/-- A member that is there only if there is a value. -/
def given (key : String) (write : α → Json) : Option α → Members
  | none => []
  | some a => [(key, write a)]

/-- A list that counts as missing when it is empty. -/
def filled : List α → Option (List α)
  | [] => none
  | a :: as => some (a :: as)

/-- What holds of all items of a list holds of those of the list that is there. -/
theorem forall_of_filled {p : α → Prop} {as bs : List α} (h : ∀ a ∈ as, p a)
    (hbs : filled as = some bs) : ∀ b ∈ bs, p b := by
  cases as with
  | nil => cases hbs
  | cons a as =>
    obtain rfl := Option.some.inj hbs
    exact h

section Given

variable {ms : Members} {key : String} {write : α → Json} {x : Option α}

/-- A key that is not there is not there beside a member with another key. -/
theorem not_mem_keys_append_given {other : String} (h : other ∉ ms.keys) (hne : other ≠ key) :
    other ∉ Members.keys (ms ++ given key write x) := by
  rw [Members.keys_append, List.mem_append, not_or]
  cases x with
  | none => exact ⟨h, List.not_mem_nil⟩
  | some a => exact ⟨h, fun hmem => hne (List.mem_singleton.mp hmem)⟩

/-- The value of a member at the end that may be missing. -/
theorem lookup_append_given (h : key ∉ ms.keys) :
    Members.lookup (ms ++ given key write x) key = x.map write := by
  cases x with
  | none =>
    rw [given, List.append_nil]
    exact Members.lookup_eq_none_iff.mpr h
  | some a => exact Members.lookup_append_singleton h _

/-- A member at the end that may be missing is taken out. -/
theorem remove_append_given (h : key ∉ ms.keys) :
    Members.remove (ms ++ given key write x) key = ms := by
  cases x with
  | none =>
    rw [given, List.append_nil]
    exact Members.remove_of_not_mem h
  | some a => exact Members.remove_append_singleton h _

/-- An object that documents can hold, with a further member. -/
theorem wellFormed_append_given (h : (Json.object ms).WellFormed) (hkey : key ∉ ms.keys)
    (hx : ∀ a, x = some a → (write a).WellFormed) :
    (Json.object (ms ++ given key write x)).WellFormed := by
  cases x with
  | none =>
    rw [given, List.append_nil]
    exact h
  | some a =>
    rw [given, ← Members.insert_of_not_mem hkey]
    exact wellFormed_insert h key (hx a rfl)

end Given

end Json

namespace Record

variable {α β σ : Type} {r : Record σ} {src : Source}

/-! ## Fields -/

/-- Names tell fields apart. -/
theorem find?_name {fields : List (Field σ)} {f : Field σ}
    (hnames : (fields.map Field.name).Nodup) (hf : f ∈ fields) :
    (fields.find? fun g => g.name == f.name) = some f := by
  induction fields with
  | nil => cases hf
  | cons g fields ih =>
    rw [List.map_cons, List.nodup_cons] at hnames
    obtain rfl | hf := List.mem_cons.mp hf
    · exact List.find?_cons_of_pos (by simp)
    · have hne : g.name ≠ f.name := fun heq =>
        hnames.1 (heq ▸ List.mem_map_of_mem hf)
      rw [List.find?_cons_of_neg (by simpa using hne)]
      exact ih hnames.2 hf

/-- A key names the field with its text. -/
theorem field_of_text? {key : Node} {f : Field σ} (hnames : r.names.Nodup) (hf : f ∈ r.fields)
    (hkey : key.text? = some f.name) : r.field src key = .ok f := by
  unfold field
  split
  · cases hkey
  · simp only [Node.text_eq_ok_iff.mpr hkey, bind, Except.bind, find?_name hnames hf]

/-! ## Members -/

/-- The members that are written for some fields, and what reading them makes of a state. -/
inductive Written (src : Source) : List (Field σ) → Json.Members → σ → σ → Prop
  | done {s : σ} : Written src [] [] s s
  | skip {f : Field σ} {fs : List (Field σ)} {ms : Json.Members} {s s' : σ}
      (h : f.required = false) (rest : Written src fs ms s s') : Written src (f :: fs) ms s s'
  | put {f : Field σ} {fs : List (Field σ)} {j : Json} {ms : Json.Members} {s s₁ s' : σ}
      (h : ∀ n, j.Spelled n → f.read src n s = .ok s₁) (rest : Written src fs ms s₁ s') :
      Written src (f :: fs) ((f.name, j) :: ms) s s'

section Members

variable {fs : List (Field σ)} {ms : Json.Members} {s s' : σ} {name : String}

/-- A field with a value. -/
theorem Written.value {required : Bool} {read : Source → Node → Reading α} {put : σ → α → σ}
    {j : Json} {a : α} (hread : ∀ n, j.Spelled n → read src n = .ok a)
    (rest : Written src fs ms (put s a) s') :
    Written src (⟨name, required, fun src n s => put s <$> read src n⟩ :: fs) ((name, j) :: ms)
      s s' := by
  refine .put (f := ⟨name, required, fun src n s => put s <$> read src n⟩) (fun n hn => ?_) rest
  change put s <$> read src n = _
  rw [hread n hn]
  rfl

/-- A field that may be left out or null. -/
theorem Written.optional {read : Source → Node → Reading β} {put : σ → Option β → σ}
    {write : α → Json} {x : Option α} {f : α → β} (hnull : ∀ a, write a ≠ .null)
    (hread : ∀ a, x = some a → ∀ n, (write a).Spelled n → read src n = .ok (f a))
    (hput : put s none = s) (rest : Written src fs ms (put s (x.map f)) s') :
    Written src (⟨name, false, fun src n s => put s <$> n.optional (read src)⟩ :: fs)
      (Json.given name write x ++ ms) s s' := by
  cases x with
  | none =>
    rw [Option.map_none, hput] at rest
    exact .skip rfl rest
  | some a =>
    exact .value (fun n hn => Node.optional_of_spelled (hnull a) hn (hread a rfl n hn)) rest

/-- A text that may be left out or null. -/
theorem Written.optionalText {put : σ → Option String → σ} {x : Option String}
    (hput : put s none = s) (rest : Written src fs ms (put s x) s') :
    Written src (Field.optional name Node.string put :: fs) (Json.given name .string x ++ ms)
      s s' := by
  have hread : ∀ t, x = some t → ∀ n, (Json.string t).Spelled n → Node.string n = .ok (id t) :=
    fun _ _ _ hn => Node.text_of_spelled hn _
  exact .optional nofun hread hput (by rwa [Option.map_id])

/-- Nothing comes after the members. -/
theorem Written.of_append_nil (h : Written src fs (ms ++ []) s s') : Written src fs ms s s' := by
  rwa [List.append_nil] at h

/-! ## Reading -/

/-- Members that spell written fields are read one after the other.  All required fields are seen
then. -/
theorem readEntries_of_written {entries : List (Node × Node)} {seen : List String}
    (hr : r.names.Nodup) (hfields : fs ⊆ r.fields) (hnames : (fs.map Field.name).Nodup)
    (h : Written src fs ms s s') (hentries : Json.SpelledMembers ms entries)
    (hseen : ∀ f ∈ fs, f.name ∉ seen) :
    ∃ seen', r.readEntries src entries seen s = .ok (seen', s') ∧ seen ⊆ seen' ∧
      ∀ f ∈ fs, f.required = true → f.name ∈ seen' := by
  -- along the written fields: one that is left out takes no entry, one that is there takes the first
  induction h generalizing entries seen with
  | done =>
    obtain rfl := hentries
    exact ⟨seen, rfl, List.Subset.refl _, nofun⟩
  | @skip f fs ms s s' hspare rest ih =>
    rw [List.map_cons, List.nodup_cons] at hnames
    obtain ⟨-, hfields⟩ := List.cons_subset.mp hfields
    obtain ⟨seen', hread, hsub, hreq⟩ := ih hfields hnames.2 hentries
      fun g hg => hseen g (List.mem_cons_of_mem _ hg)
    refine ⟨seen', hread, hsub, fun g hg hg' => ?_⟩
    obtain rfl | hg := List.mem_cons.mp hg
    · rw [hspare] at hg'
      cases hg'
    · exact hreq g hg hg'
  | @put f fs j ms s s₁ s' hput rest ih =>
    obtain ⟨key, n, entries, rfl, hkey, hn, hentries⟩ := hentries
    rw [List.map_cons, List.nodup_cons] at hnames
    obtain ⟨hf, hfields⟩ := List.cons_subset.mp hfields
    have hnew : seen.contains f.name = false := by
      simpa using hseen f List.mem_cons_self
    -- the names of the fields behind this one are still new
    have hrest : ∀ g ∈ fs, g.name ∉ f.name :: seen := by
      intro g hg hmem
      obtain heq | hmem := List.mem_cons.mp hmem
      · exact hnames.1 (heq ▸ List.mem_map_of_mem hg)
      · exact hseen g (List.mem_cons_of_mem _ hg) hmem
    obtain ⟨seen', hread, hsub, hreq⟩ := ih hfields hnames.2 hentries hrest
    obtain ⟨hmem, hsub⟩ := List.cons_subset.mp hsub
    refine ⟨seen', ?_, hsub, fun g hg hg' => ?_⟩
    · have hfield : r.field src key = .ok f := field_of_text? hr hf (Node.text?_of_spellsAtom hkey)
      simp only [readEntries, hfield, hnew, hput n hn, bind, Except.bind]
      exact hread
    · obtain rfl | hg := List.mem_cons.mp hg
      · exact hmem
      · exact hreq g hg hg'

/-- What spells the members that are written for all fields is read as the record. -/
theorem readMapping_of_written {entries : List (Node × Node)} (hr : r.names.Nodup)
    (hfields : fs.Perm r.fields) (h : Written src fs ms r.blank s)
    (hentries : Json.SpelledMembers ms entries) : r.readMapping src entries = .ok s := by
  have hnames : (fs.map Field.name).Nodup := (hfields.map Field.name).nodup_iff.mpr hr
  have hnew : ∀ f ∈ fs, f.name ∉ ([] : List String) := fun _ _ => List.not_mem_nil
  obtain ⟨seen, hread, -, hreq⟩ :=
    readEntries_of_written hr hfields.subset hnames h hentries hnew
  -- every required field was written, and so it was seen
  have hall : (r.fields.find? fun f => f.required && !seen.contains f.name) = none := by
    rw [List.find?_eq_none]
    intro f hf
    rw [Bool.and_eq_true, not_and]
    intro hreq'
    have hmem := hreq f (hfields.mem_iff.mpr hf) hreq'
    simpa using hmem
  simp only [readMapping, hread, hall, bind, Except.bind]

/-- A record is read from what spells it. -/
theorem read_of_written {n : Node} (hr : r.names.Nodup) (hfields : fs.Perm r.fields)
    (h : Written src fs ms r.blank s) (hn : (Json.object ms).Spelled n) : r.read src n = .ok s := by
  obtain ⟨entries, rfl, hentries⟩ := hn
  exact readMapping_of_written hr hfields h hentries

end Members

end Record

end Promptwright
