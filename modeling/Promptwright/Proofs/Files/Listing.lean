import Promptwright.Proofs.Glob.Search

/-!
# Listing directories and reading files

On a disk everything stands in a directory, so whatever is below a directory is found by listing
directories one after the other, and lies no deeper than there are entries.

## Key results

- `mem_listed_iff`, `nodup_map_fst_listed`: the names in a directory, each once
- `WellFormed.hasDir_above`, `WellFormed.length_le`: what is below a directory
- `exists_leadsTo_of_joinAll`: where the path of some names leads to
- `readText_eq_ok_iff`: the text of a file
-/

namespace Promptwright.FileTree

variable {t : FileTree} {p dir : String} {loc loc' : Location} {names : List String}
  {listed : List (String × Bool)}

/-! ## The names in a directory -/

/-- The name of an entry just below a directory, with whether it is a directory itself. -/
def listed? (dir : Location) (e : Location × Entry) : Option (String × Bool) :=
  (childName? dir e.1).map fun name => (name, e.2.isDirectory)

/-- What is listed are the names in the directory at the path. -/
theorem readDir_eq_ok_iff : t.readDir p = .ok listed ↔
    ∃ loc, t.resolve p = .ok loc ∧ t.hasDir loc = true ∧
      t.entries.filterMap (listed? loc) = listed := by
  rw [readDir]
  cases t.resolve p with
  | error e => simp [bind, Except.bind]
  | ok loc =>
    rw [bind_of_eq_ok rfl]
    split
    next hdir =>
      simp only [Except.ok.injEq, exists_eq_left', hdir, true_and]
      exact ⟨Except.ok.inj, congrArg _⟩
    next hdir => simp [hdir]

/-- Directories can be listed. -/
theorem exists_readDir_eq_ok_iff : (∃ listed, t.readDir p = .ok listed) ↔ t.isDir p = true := by
  rw [isDir_iff]
  constructor
  · rintro ⟨listed, h⟩
    obtain ⟨loc, hloc, hdir, -⟩ := readDir_eq_ok_iff.mp h
    exact ⟨loc, hloc, hdir⟩
  · rintro ⟨loc, hloc, hdir⟩
    exact ⟨_, readDir_eq_ok_iff.mpr ⟨loc, hloc, hdir, rfl⟩⟩

/-- Each name is that of an entry. -/
theorem exists_of_mem_listed {x : String × Bool} (h : x ∈ t.entries.filterMap (listed? loc)) :
    ∃ e ∈ t.entries, e.1 = loc ++ [x.1] ∧ e.2.isDirectory = x.2 := by
  obtain ⟨e, he, hx⟩ := List.mem_filterMap.mp h
  obtain ⟨name, hname, rfl⟩ := Option.map_eq_some_iff.mp hx
  exact ⟨e, he, childName?_eq_some_iff.mp hname, rfl⟩

/-- Each name is listed once, if each location has one entry. -/
theorem nodup_map_fst_listed (h : (t.entries.map Prod.fst).Nodup) (loc : Location) :
    ((t.entries.filterMap (listed? loc)).map Prod.fst).Nodup := by
  rw [List.Nodup, List.pairwise_map] at h ⊢
  refine List.Pairwise.filterMap _ (fun e e' hne x hx x' hx' heq => ?_) h
  obtain ⟨name, hname, rfl⟩ := Option.map_eq_some_iff.mp hx
  obtain ⟨name', hname', rfl⟩ := Option.map_eq_some_iff.mp hx'
  obtain rfl : name = name' := heq
  exact hne ((childName?_eq_some_iff.mp hname).trans (childName?_eq_some_iff.mp hname').symm)

/-! ## Disks as they are -/

/-- What holds of every disk: names are names, each location has one entry, and everything stands in
a directory. -/
structure WellFormed (t : FileTree) : Prop where
  named : t.Named
  locations : (t.entries.map Prod.fst).Nodup
  parents : ∀ e ∈ t.entries, t.hasDir e.1.dropLast = true

/-- The entry of a location is what is there. -/
theorem get?_eq_some_iff (hlocations : (t.entries.map Prod.fst).Nodup) (hloc : loc ≠ []) {e : Entry} :
    t.get? loc = some e ↔ (loc, e) ∈ t.entries := by
  rw [get?, if_neg (by simpa using hloc)]
  generalize t.entries = es at hlocations ⊢
  induction es with
  | nil => simp
  | cons x es ih =>
    obtain ⟨l, e'⟩ := x
    rw [List.map_cons, List.nodup_cons] at hlocations
    rw [lookup_cons_eq, List.mem_cons, Prod.mk.injEq]
    split
    next heq =>
      subst heq
      have hnot : (loc, e) ∉ es := fun hmem => hlocations.1 (List.mem_map.mpr ⟨_, hmem, rfl⟩)
      simp [hnot, eq_comm]
    next hne => exact (ih hlocations.2).trans (or_iff_right fun heq => hne heq.1).symm

/-- A name is listed where there is something with this name in the directory. -/
theorem WellFormed.mem_listed_iff (h : t.WellFormed) {x : String × Bool} :
    x ∈ t.entries.filterMap (listed? loc) ↔
      ∃ e, t.get? (loc ++ [x.1]) = some e ∧ e.isDirectory = x.2 := by
  have hne : loc ++ [x.1] ≠ [] := List.append_ne_nil_of_right_ne_nil _ (List.cons_ne_nil _ _)
  constructor
  · intro hx
    obtain ⟨⟨l, e⟩, he, rfl, hdir⟩ := exists_of_mem_listed hx
    exact ⟨e, (get?_eq_some_iff h.locations hne).mpr he, hdir⟩
  · rintro ⟨e, he, hdir⟩
    refine List.mem_filterMap.mpr ⟨_, (get?_eq_some_iff h.locations hne).mp he, ?_⟩
    rw [listed?, childName?_eq_some_iff.mpr rfl, Option.map_some, hdir]

/-- What something is in is a directory. -/
theorem WellFormed.hasDir_of_isSome (h : t.WellFormed) {s : String}
    (hsome : (t.get? (loc ++ [s])).isSome = true) : t.hasDir loc = true := by
  have hne : loc ++ [s] ≠ [] := List.append_ne_nil_of_right_ne_nil _ (List.cons_ne_nil _ _)
  obtain ⟨e, he, hloc⟩ := List.mem_map.mp ((isSome_get?_iff hne).mp hsome)
  have hdir := h.parents e he
  rwa [hloc, List.dropLast_concat] at hdir

/-- Above what is there, there are directories. -/
theorem WellFormed.hasDir_above (h : t.WellFormed) {s : String}
    (hsome : (t.get? (loc ++ s :: names)).isSome = true) : t.hasDir loc = true := by
  induction names using List.reverseRecOn with
  | nil => exact h.hasDir_of_isSome hsome
  | append_singleton names s' ih =>
    rw [← List.cons_append, ← List.append_assoc] at hsome
    apply ih
    rw [hasDir_iff.mp (h.hasDir_of_isSome hsome)]
    rfl

/-- Nothing lies deeper than there are entries, since everything on the way is one. -/
theorem WellFormed.length_le (h : t.WellFormed) (hsome : (t.get? (loc ++ names)).isSome = true) :
    names.length ≤ t.entries.length := by
  have hway : ∀ k < names.length, (t.get? (loc ++ names.take (k + 1))).isSome = true := by
    intro k hk
    by_cases hlast : k + 1 = names.length
    · rwa [hlast, List.take_length]
    · have hk' : k + 1 < names.length := by omega
      rw [← List.take_append_drop (k + 1) names, List.drop_eq_getElem_cons hk',
        ← List.append_assoc] at hsome
      rw [hasDir_iff.mp (h.hasDir_above hsome)]
      rfl
  exact length_le_of_isSome hway

/-! ## Paths of names -/

/-- The path of some names leads to where they lead from the directory. -/
theorem exists_leadsTo_of_joinAll (hnames : ∀ s ∈ names, Path.IsName s)
    (h : t.LeadsTo (Path.joinAll dir names) loc') :
    ∃ loc, t.LeadsTo dir loc ∧ loc' = loc ++ names := by
  induction names generalizing dir with
  | nil => exact ⟨loc', h, (List.append_nil _).symm⟩
  | cons s names ih =>
    obtain ⟨hs, hnames⟩ := List.forall_mem_cons.mp hnames
    obtain ⟨next, hnext, rfl⟩ := ih hnames h
    obtain ⟨loc, hloc, hstep⟩ := (leadsTo_join_iff hs.slash).mp hnext
    obtain ⟨rfl, -, -⟩ := hstep.of_isName hs
    exact ⟨loc, hloc, by rw [List.append_assoc]; rfl⟩

/-! ## Texts of files -/

/-- A text that is read is that of the file at the path. -/
theorem readText_eq_ok_iff {text : String} : t.readText p = .ok text ↔
    ∃ loc bytes, t.resolve p = .ok loc ∧ t.get? loc = some (.file bytes) ∧
      String.fromUTF8? bytes = some text := by
  constructor
  · intro h
    obtain ⟨bytes, hread, htext⟩ := bind_eq_ok h
    obtain ⟨entry, hentry, hread⟩ := bind_eq_ok hread
    obtain ⟨loc, hresolve, hget⟩ := bind_eq_ok hentry
    refine ⟨loc, bytes, hresolve, ?_, ?_⟩
    -- an entry that is read is a file, and its bytes are a text
    · split at hget
      next e he =>
        cases hget
        split at hread
        next => cases hread; exact he
        next => cases hread
      next => cases hget
    · split at htext
      next s hs => cases htext; exact hs
      next => cases htext
  · rintro ⟨loc, bytes, hresolve, hget, htext⟩
    simp [readText, read, entry, hresolve, hget, htext, bind, Except.bind]

/-- A text is read back from its bytes. -/
theorem fromUTF8?_toUTF8 (s : String) : String.fromUTF8? s.toUTF8 = some s := by
  rw [String.fromUTF8?]
  split
  next => rfl
  next h => exact absurd s.isValidUTF8 h

end Promptwright.FileTree
