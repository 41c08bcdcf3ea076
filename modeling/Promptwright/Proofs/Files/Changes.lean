import Mathlib.Data.List.DropRight
import Promptwright.Files.Tree
import Promptwright.Proofs.Except
import Promptwright.Proofs.Files.Segments

/-!
# What changes on a disk

Directories and files are only ever added, and files replaced: what is there stays, so every way
through a tree stays too.  `Updates` says at which locations a tree differs from an earlier one.

## Key results

- `Updates.trans`, `Updates.walk`: one change after the other, and what stays
- `createDirs_updates`: creating directories changes what stands on the way that a path takes
- `write_updates`: writing a file changes the file only
-/

namespace Promptwright.FileTree

variable {t t' t'' : FileTree} {loc loc' : Location} {p q : String} {ss ss' : List String}

/-! ## Entries -/

/-- The first entry is found, or one behind it. -/
theorem lookup_cons_eq (l : Location) (e : Entry) (es : List (Location × Entry)) (loc : Location) :
    ((l, e) :: es).lookup loc = if loc = l then some e else es.lookup loc := by
  by_cases h : loc = l
  · rw [List.lookup_cons, beq_iff_eq.mpr h, if_pos h]
  · rw [List.lookup_cons, beq_eq_false_iff_ne.mpr h, if_neg h]

/-- The entries with one that is set. -/
theorem lookup_set (loc : Location) (e : Entry) (es : List (Location × Entry)) (loc' : Location) :
    (put.set loc e es).lookup loc' = if loc' = loc then some e else es.lookup loc' := by
  induction es with
  | nil => exact lookup_cons_eq loc e [] loc'
  | cons x es ih =>
    obtain ⟨l, y⟩ := x
    rw [put.set, lookup_cons_eq]
    split
    next h =>
      rw [lookup_cons_eq, h]
      by_cases h' : loc' = loc
      · rw [if_pos h', if_pos h']
      · rw [if_neg h', if_neg h', if_neg h']
    next h =>
      rw [lookup_cons_eq, ih]
      by_cases h' : loc' = l
      · have hne : loc' ≠ loc := fun he => h (h'.symm.trans he)
        rw [if_pos h', if_neg hne, if_pos h']
      · rw [if_neg h', if_neg h']

/-- Only the entry that is set changes. -/
theorem get?_put (hloc : loc ≠ []) (t : FileTree) (e : Entry) (loc' : Location) :
    (t.put loc e).get? loc' = if loc' = loc then some e else t.get? loc' := by
  rw [get?, get?]
  split
  next h =>
    obtain rfl := List.isEmpty_iff.mp h
    rw [if_neg (Ne.symm hloc)]
  next => exact lookup_set loc e t.entries loc'

/-- What holds of the names on every disk: they are names that a file or directory can have. -/
def Named (t : FileTree) : Prop := ∀ e ∈ t.entries, ∀ name ∈ e.1, Path.IsName name

instance (t : FileTree) : Decidable t.Named :=
  inferInstanceAs (Decidable (∀ e ∈ t.entries, ∀ name ∈ e.1, Path.IsName name))

/-- Where a directory is. -/
theorem hasDir_iff : t.hasDir loc = true ↔ t.get? loc = some .directory := by
  rw [hasDir]
  cases t.get? loc with
  | none => simp
  | some e => cases e <;> simp

/-- Where a path leads to a file. -/
theorem isFile_iff : t.isFile p = true ↔
    ∃ loc bytes, t.resolve p = .ok loc ∧ t.get? loc = some (.file bytes) := by
  rw [isFile, entry]
  constructor
  · intro h
    cases hresolve : t.resolve p with
    | error e => simp [hresolve, bind, Except.bind] at h
    | ok loc =>
      cases hget : t.get? loc with
      | none => simp [hresolve, hget, bind, Except.bind] at h
      | some e =>
        cases e with
        | directory => simp [hresolve, hget, bind, Except.bind] at h
        | file bytes => exact ⟨loc, bytes, rfl, hget⟩
  · rintro ⟨loc, bytes, hresolve, hget⟩
    simp [hresolve, hget, bind, Except.bind]

/-! ## Ways through a tree -/

/-- A way that goes on. -/
theorem walk_append (t : FileTree) (loc : Location) (ss ss' : List String) :
    t.walk loc (ss ++ ss') = t.walk loc ss >>= fun loc' => t.walk loc' ss' := by
  induction ss generalizing loc with
  | nil => rfl
  | cons s ss ih =>
    simp only [List.cons_append, walk]
    split
    · rfl
    split
    · exact ih loc
    split
    · exact ih loc.dropLast
    split
    · rfl
    split
    · rfl
    · exact ih (loc ++ [s])

/-- Both parts of a way. -/
theorem walk_append_eq_ok (h : t.walk loc (ss ++ ss') = .ok loc') :
    ∃ mid, t.walk loc ss = .ok mid ∧ t.walk mid ss' = .ok loc' := by
  rw [walk_append] at h
  exact bind_eq_ok h

/-- One step of a way: where a segment leads to from a directory. -/
inductive Step (t : FileTree) (loc : Location) (s : String) : Location → Prop
  | stay (hdir : t.hasDir loc = true) (hs : s = "" ∨ s = ".") : Step t loc s loc
  | up (hdir : t.hasDir loc = true) (hs : s = "..") : Step t loc s loc.dropLast
  | name (hdir : t.hasDir loc = true) (hs : ¬ (s = "" ∨ s = ".") ∧ s ≠ "..")
      (hsize : s.utf8ByteSize ≤ maxName) (hsome : (t.get? (loc ++ [s])).isSome = true) :
      Step t loc s (loc ++ [s])

/-- A way is made of steps. -/
theorem walk_cons_iff {s : String} : t.walk loc (s :: ss) = .ok loc' ↔
    ∃ mid, t.Step loc s mid ∧ t.walk mid ss = .ok loc' := by
  constructor
  -- a walk tests the segment in the order of the steps, and fails where none of them can be taken
  · intro h
    rw [walk] at h
    split at h
    · cases h
    next hdir =>
    have hdir : t.hasDir loc = true := by simpa using hdir
    split at h
    next hs => exact ⟨loc, .stay hdir hs, h⟩
    next hblank =>
    split at h
    next hs => exact ⟨loc.dropLast, .up hdir hs, h⟩
    next hup =>
    split at h
    · cases h
    next hsize =>
    split at h
    · cases h
    next hsome =>
    exact ⟨loc ++ [s], .name hdir ⟨hblank, hup⟩ (Nat.not_lt.mp hsize)
      (by simpa [Option.isSome_iff_ne_none] using hsome), h⟩
  · rintro ⟨mid, hstep, h⟩
    rw [walk]
    cases hstep with
    | stay hdir hs => simpa [hdir, hs] using h
    | up hdir hs => simpa [hdir, hs] using h
    | name hdir hs hsize hsome =>
      have hsome : (t.get? (loc ++ [s])).isNone = false := by simpa using hsome
      simpa [hdir, hs.1, hs.2, Nat.not_lt.mpr hsize, hsome] using h

/-- Steps are taken from directories. -/
theorem Step.hasDir {s : String} (h : t.Step loc s loc') : t.hasDir loc = true := by
  cases h <;> assumption

/-- A way of one step. -/
theorem Step.walk {s : String} (h : t.Step loc s loc') : t.walk loc [s] = .ok loc' :=
  walk_cons_iff.mpr ⟨loc', h, rfl⟩

/-- An empty segment leads nowhere else. -/
theorem walk_blank (h : t.hasDir loc = true) : t.walk loc [""] = .ok loc :=
  (Step.stay h (.inl rfl)).walk

/-- A way that never goes up leads below where it starts. -/
theorem exists_names_of_walk (hss : ".." ∉ ss) (h : t.walk loc ss = .ok loc') :
    ∃ names, loc' = loc ++ names := by
  induction ss generalizing loc with
  | nil =>
    obtain rfl := Except.ok.inj h
    exact ⟨[], (List.append_nil _).symm⟩
  | cons s ss ih =>
    rw [List.mem_cons, not_or] at hss
    obtain ⟨mid, hstep, h⟩ := walk_cons_iff.mp h
    obtain ⟨names, rfl⟩ := ih hss.2 h
    cases hstep with
    | stay => exact ⟨names, rfl⟩
    | up _ hs => exact absurd hs.symm hss.1
    | name => exact ⟨s :: names, by rw [List.append_assoc]; rfl⟩

/-! ## Changes -/

/-- A tree that differs from an earlier one only by new directories at some locations and by files
that were written at others. -/
structure Updates (D F : Location → Prop) (t t' : FileTree) : Prop where
  current : t'.current = t.current
  entry : ∀ loc, t'.get? loc = t.get? loc ∨
    (D loc ∧ t.get? loc = none ∧ t'.get? loc = some .directory) ∨
    (F loc ∧ t.get? loc ≠ some .directory ∧ ∃ bytes, t'.get? loc = some (.file bytes))

namespace Updates

variable {D D' F F' : Location → Prop}

/-- Nothing is changed. -/
theorem refl (t : FileTree) : Updates D F t t := ⟨rfl, fun _ => .inl rfl⟩

/-- Changes at more locations. -/
theorem mono (h : Updates D F t t') (hD : ∀ loc, D loc → D' loc) (hF : ∀ loc, F loc → F' loc) :
    Updates D' F' t t' where
  current := h.current
  entry loc := by
    obtain heq | ⟨hd, hdir⟩ | ⟨hf, hfile⟩ := h.entry loc
    · exact .inl heq
    · exact .inr (.inl ⟨hD loc hd, hdir⟩)
    · exact .inr (.inr ⟨hF loc hf, hfile⟩)

/-- One change after the other. -/
theorem trans (h : Updates D F t t') (h' : Updates D F t' t'') : Updates D F t t'' where
  current := h'.current.trans h.current
  entry loc := by
    obtain heq | ⟨hd, hnone, hdir⟩ | ⟨hf, hfile, bytes, hbytes⟩ := h.entry loc
    · rw [← heq]
      exact h'.entry loc
    · -- what was a new directory is one still
      obtain heq' | ⟨-, hnone', -⟩ | ⟨-, hfile', -⟩ := h'.entry loc
      · exact .inr (.inl ⟨hd, hnone, heq'.trans hdir⟩)
      · cases hdir.symm.trans hnone'
      · exact absurd hdir hfile'
    · -- what was written may be written once more
      obtain heq' | ⟨-, hnone', -⟩ | ⟨-, -, bytes', hbytes'⟩ := h'.entry loc
      · exact .inr (.inr ⟨hf, hfile, bytes, heq'.trans hbytes⟩)
      · cases hbytes.symm.trans hnone'
      · exact .inr (.inr ⟨hf, hfile, bytes', hbytes'⟩)

/-- Directories stay. -/
theorem hasDir (h : Updates D F t t') (hdir : t.hasDir loc = true) : t'.hasDir loc = true := by
  rw [hasDir_iff] at hdir ⊢
  obtain heq | ⟨-, hnone, -⟩ | ⟨-, hfile, -⟩ := h.entry loc
  · exact heq.trans hdir
  · cases hdir.symm.trans hnone
  · exact absurd hdir hfile

/-- Files stay, though perhaps with other contents. -/
theorem file (h : Updates D F t t') (hfile : ∃ bytes, t.get? loc = some (.file bytes)) :
    ∃ bytes, t'.get? loc = some (.file bytes) := by
  obtain ⟨bytes, hbytes⟩ := hfile
  obtain heq | ⟨-, hnone, -⟩ | ⟨-, -, hfile'⟩ := h.entry loc
  · exact ⟨bytes, heq.trans hbytes⟩
  · cases hbytes.symm.trans hnone
  · exact hfile'

/-- What is there stays there. -/
theorem isSome (h : Updates D F t t') (hsome : (t.get? loc).isSome = true) :
    (t'.get? loc).isSome = true := by
  obtain heq | ⟨-, -, hdir⟩ | ⟨-, -, bytes, hbytes⟩ := h.entry loc
  · rwa [heq]
  · rw [hdir]
    rfl
  · rw [hbytes]
    rfl

/-- Steps stay. -/
theorem step (h : Updates D F t t') {s : String} (hstep : t.Step loc s loc') : t'.Step loc s loc' := by
  cases hstep with
  | stay hdir hs => exact .stay (h.hasDir hdir) hs
  | up hdir hs => exact .up (h.hasDir hdir) hs
  | name hdir hs hsize hsome => exact .name (h.hasDir hdir) hs hsize (h.isSome hsome)

/-- Ways through a tree stay. -/
theorem walk (h : Updates D F t t') (hwalk : t.walk loc ss = .ok loc') :
    t'.walk loc ss = .ok loc' := by
  induction ss generalizing loc with
  | nil => exact hwalk
  | cons s ss ih =>
    obtain ⟨mid, hstep, hwalk⟩ := walk_cons_iff.mp hwalk
    exact walk_cons_iff.mpr ⟨mid, h.step hstep, ih hwalk⟩

/-- Paths start where they did. -/
theorem start (h : Updates D F t t') (p : String) : t'.start p = t.start p := by
  rw [FileTree.start, FileTree.start, h.current]

/-- Paths lead where they did. -/
theorem resolve (h : Updates D F t t') (hp : t.resolve p = .ok loc) : t'.resolve p = .ok loc := by
  obtain ⟨u, hcheck, hwalk⟩ := bind_eq_ok hp
  rw [FileTree.resolve, hcheck, h.start]
  exact h.walk hwalk

/-- What a path leads to stays a file. -/
theorem isFile (h : Updates D F t t') (hp : t.isFile p = true) : t'.isFile p = true := by
  obtain ⟨loc, bytes, hresolve, hget⟩ := isFile_iff.mp hp
  obtain ⟨bytes', hget'⟩ := h.file ⟨bytes, hget⟩
  exact isFile_iff.mpr ⟨loc, bytes', h.resolve hresolve, hget'⟩

end Updates

/-! ## What a path passes -/

/-- Whether a path passes a location, or ends there. -/
def Passes (t : FileTree) (p : String) (loc : Location) : Prop :=
  ∃ ss, ss <+: Path.segments p ∧ t.walk (t.start p) ss = .ok loc

/-- A path passes what it passed. -/
theorem Updates.passes {D F : Location → Prop} (h : Updates D F t t') (hp : t.Passes p loc) :
    t'.Passes p loc := by
  obtain ⟨ss, hss, hwalk⟩ := hp
  exact ⟨ss, hss, by rw [h.start]; exact h.walk hwalk⟩

/-- A path passes what another one passes that it starts with. -/
theorem Passes.of_startOf (hq : Path.StartOf q p) (h : t.Passes q loc) : t.Passes p loc := by
  have hstart : t.start q = t.start p := by rw [start, start, hq.isAbsolute_eq]
  obtain ⟨ds, hds, hq⟩ := hq.first
  obtain ⟨ss, hss, hwalk⟩ := h
  rw [hstart] at hwalk
  have hss : ss <+: ds ∨ ss = ds ++ [""] := by
    obtain hq | hq := hq
    · exact .inl (hq ▸ hss)
    · rw [hq, List.prefix_concat_iff] at hss
      exact hss.symm
  obtain hss | rfl := hss
  · exact ⟨ss, hss.trans hds, hwalk⟩
  · -- the empty segment at the end leads nowhere else
    obtain ⟨mid, hmid, hblank⟩ := walk_append_eq_ok hwalk
    obtain ⟨_, hstep, -⟩ := walk_cons_iff.mp hblank
    rw [walk_blank hstep.hasDir] at hblank
    cases hblank
    exact ⟨ds, hds, hmid⟩

/-- What changes on the way that a parent takes changes on the way of the path. -/
theorem Updates.of_parent (h : Updates (t'.Passes q) (fun _ => False) t t')
    (hq : Path.parent? p = some q) (hempty : q = "" → t' = t) :
    Updates (t'.Passes p) (fun _ => False) t t' := by
  by_cases hne : q = ""
  · rw [hempty hne]
    exact .refl t
  · exact h.mono (fun _ => .of_startOf (Path.startOf_of_parent? hq hne)) fun _ => id

/-! ## Single operations -/

variable {D F : Location → Prop}

/-- A new directory is all that changes where nothing was. -/
theorem put_directory_updates (hloc : loc ≠ []) (hnone : t.get? loc = none) :
    Updates (· = loc) (fun _ => False) t (t.put loc .directory) where
  current := rfl
  entry loc' := by
    rw [get?_put hloc]
    split
    next heq => exact .inr (.inl ⟨heq, heq ▸ hnone, rfl⟩)
    next => exact .inl rfl

/-- A file is all that changes where no directory was. -/
theorem put_file_updates (hloc : loc ≠ []) (hfile : t.get? loc ≠ some .directory)
    (bytes : ByteArray) :
    Updates (fun _ => False) (· = loc) t (t.put loc (.file bytes)) where
  current := rfl
  entry loc' := by
    rw [get?_put hloc]
    split
    next heq => exact .inr (.inr ⟨heq, heq ▸ hfile, bytes, rfl⟩)
    next => exact .inl rfl

/-- The place that a path names: a name in a directory which the segments before it lead to. -/
structure Place (t : FileTree) (p : String) (ss : List String) (dir : Location) (name : String) :
    Prop where
  walk : t.walk (t.start p) ss = .ok dir
  hasDir : t.hasDir dir = true
  isName : ¬ (name = "" ∨ name = ".") ∧ name ≠ ".."
  size : name.utf8ByteSize ≤ maxName

/-- Once something is there, a path leads to the place that it names. -/
theorem Place.walk_of_updates {dir : Location} {name : String} (h : t.Place p ss dir name)
    (hup : Updates D F t t') (hsome : (t'.get? (dir ++ [name])).isSome = true) :
    t'.walk (t'.start p) (ss ++ [name]) = .ok (dir ++ [name]) := by
  have hstep : t'.Step dir name (dir ++ [name]) :=
    .name (hup.hasDir h.hasDir) h.isName h.size hsome
  rw [walk_append, hup.start, hup.walk h.walk]
  exact hstep.walk

/-- All but the last segment lead to a directory. -/
theorem walkToLast_eq_ok {dir : Location} (h : t.walkToLast p ss = .ok dir) :
    t.walk (t.start p) ss.dropLast = .ok dir ∧ t.hasDir dir = true := by
  obtain ⟨mid, hwalk, h⟩ := bind_eq_ok h
  split at h
  next hdir =>
    cases h
    exact ⟨hwalk, hdir⟩
  next => cases h

/-- Behind the segments that are dropped at the end stands no empty one. -/
theorem getLast?_rdropWhile_ne (ss : List String) :
    (ss.rdropWhile (· = "")).getLast? ≠ some "" := by
  intro hlast
  have hne : ss.rdropWhile (· = "") ≠ [] := by
    intro hnil
    rw [hnil] at hlast
    cases hlast
  rw [List.getLast?_eq_some_getLast hne] at hlast
  exact List.rdropWhile_last_not _ _ hne (by simpa using Option.some.inj hlast)

/-- What it takes to create a directory, and what comes of it. -/
theorem createDir_eq_ok (h : t.createDir p = .ok t') :
    ∃ ss dir name, ss ++ [name] <+: Path.segments p ∧ t.Place p ss dir name ∧
      t.get? (dir ++ [name]) = none ∧ t' = t.put (dir ++ [name]) .directory := by
  obtain ⟨-, -, h⟩ := bind_eq_ok h
  obtain ⟨dir, hlead, h⟩ := bind_eq_ok h
  obtain ⟨hwalk, hdir⟩ := walkToLast_eq_ok hlead
  have hprefix := List.rdropWhile_prefix (fun s => decide (s = "")) (Path.segments p)
  have hblank := getLast?_rdropWhile_ne (Path.segments p)
  rw [List.rdropWhile] at hprefix hblank
  -- of the segments that are walked, only these two facts are needed
  generalize ((Path.segments p).reverse.dropWhile _).reverse = ts at hprefix hblank hwalk h
  split at h
  next => cases h
  next name hlast =>
  split at h
  · cases h
  next hdots =>
  split at h
  · cases h
  next hsize =>
  split at h
  · cases h
  next hnone =>
  rw [not_or] at hdots
  have hname : name ≠ "" := fun he => hblank (he ▸ hlast)
  obtain ⟨ss, rfl⟩ := List.getLast?_eq_some_iff.mp hlast
  rw [List.dropLast_concat] at hwalk
  have hplace : t.Place p ss dir name :=
    ⟨hwalk, hdir, ⟨not_or.mpr ⟨hname, hdots.1⟩, hdots.2⟩, Nat.not_lt.mp hsize⟩
  exact ⟨ss, dir, name, hprefix, hplace, by simpa using hnone, (Except.ok.inj h).symm⟩

/-- Creating a directory changes nothing but what the path passes. -/
theorem createDir_updates (h : t.createDir p = .ok t') :
    Updates (t'.Passes p) (fun _ => False) t t' := by
  obtain ⟨ss, dir, name, hprefix, hplace, hnone, rfl⟩ := createDir_eq_ok h
  have hloc : dir ++ [name] ≠ [] := List.append_ne_nil_of_right_ne_nil _ (List.cons_ne_nil _ _)
  have hup := put_directory_updates hloc hnone
  refine hup.mono (fun loc heq => ⟨ss ++ [name], hprefix, ?_⟩) fun _ => id
  rw [heq]
  exact hplace.walk_of_updates hup (by rw [get?_put hloc, if_pos rfl]; rfl)

/-- What it takes to write a file, and what comes of it. -/
theorem write_eq_ok {bytes : ByteArray} (h : t.write p bytes = .ok t') :
    ∃ ss dir name, Path.segments p = ss ++ [name] ∧ t.Place p ss dir name ∧
      t.get? (dir ++ [name]) ≠ some .directory ∧ t' = t.put (dir ++ [name]) (.file bytes) := by
  -- the tests of writing, one after the other: each that is passed is a part of the place
  obtain ⟨-, -, h⟩ := bind_eq_ok h
  obtain ⟨dir, hlead, h⟩ := bind_eq_ok h
  obtain ⟨hwalk, hdir⟩ := walkToLast_eq_ok hlead
  obtain hnil | ⟨ss, name, hss⟩ := List.eq_nil_or_concat (Path.segments p)
  · exact absurd hnil (Path.segments_ne_nil p)
  rw [List.concat_eq_append] at hss
  have hlast : (Path.segments p).getLast?.getD "" = name := by
    rw [hss, List.getLast?_concat]
    rfl
  rw [hss, List.dropLast_concat] at hwalk
  rw [hlast] at h
  dsimp only at h
  split at h
  · cases h
  next hdots =>
  split at h
  · cases h
  next hsize =>
  have hplace : t.Place p ss dir name := by
    rw [not_or, not_or, ← and_assoc, ← not_or] at hdots
    exact ⟨hwalk, hdir, hdots, Nat.not_lt.mp hsize⟩
  split at h
  · cases h
  next hfile => exact ⟨ss, dir, name, hss, hplace, hfile, (Except.ok.inj h).symm⟩

/-- Writing a file changes nothing but the file that the path leads to. -/
theorem write_updates {bytes : ByteArray} (h : t.write p bytes = .ok t') :
    ∃ loc, t'.resolve p = .ok loc ∧ t'.get? loc = some (.file bytes) ∧
      Updates (fun _ => False) (· = loc) t t' := by
  obtain ⟨u, hcheck, -⟩ := bind_eq_ok h
  obtain ⟨ss, dir, name, hss, hplace, hfile, rfl⟩ := write_eq_ok h
  have hloc : dir ++ [name] ≠ [] := List.append_ne_nil_of_right_ne_nil _ (List.cons_ne_nil _ _)
  have hup := put_file_updates hloc hfile bytes
  have hget : (t.put (dir ++ [name]) (.file bytes)).get? (dir ++ [name]) = some (.file bytes) := by
    rw [get?_put hloc, if_pos rfl]
  refine ⟨dir ++ [name], ?_, hget, hup⟩
  rw [resolve, hcheck, hss]
  exact hplace.walk_of_updates hup (by rw [hget]; rfl)

/-! ## Creating all directories -/

/-- For an empty path nothing is created. -/
theorem createDirsWith_empty (fuel : Nat) (t : FileTree) : (createDirsWith fuel t "").1 = t := by
  cases fuel <;> rfl

/-- Creating directories changes nothing but what the path passes. -/
theorem createDirsWith_updates (fuel : Nat) (t : FileTree) (p : String) :
    Updates ((createDirsWith fuel t p).1.Passes p) (fun _ => False) t
      (createDirsWith fuel t p).1 := by
  induction fuel generalizing p with
  | zero => exact .refl t
  | succ fuel ih =>
    unfold createDirsWith
    split
    · exact .refl t
    split
    next t' h => exact createDir_updates h
    next =>
      split
      next => exact .refl t
      next q hq =>
      -- the parent is created first, and then the directory is tried once more
      have hparent := (ih q).of_parent hq fun hempty => by rw [hempty, createDirsWith_empty]
      split
      next t' e h =>
        rw [h] at hparent
        exact hparent
      next t' h =>
        rw [h] at hparent
        split
        next t'' h' =>
          have hlast := createDir_updates h'
          exact (hparent.mono (fun _ => hlast.passes) fun _ => id).trans hlast
        next => exact hparent
    next => exact .refl t

/-- Creating directories changes nothing but what the path passes. -/
theorem createDirs_updates (t : FileTree) (p : String) :
    Updates ((t.createDirs p).1.Passes p) (fun _ => False) t (t.createDirs p).1 :=
  createDirsWith_updates _ t p

/-- Creating the parent of a path changes nothing but what the path passes. -/
theorem createDirs_parent_updates (t : FileTree) (hq : Path.parent? p = some q) :
    Updates ((t.createDirs q).1.Passes p) (fun _ => False) t (t.createDirs q).1 :=
  (createDirs_updates t q).of_parent hq fun hempty => by
    rw [hempty, createDirs, createDirsWith_empty]

end Promptwright.FileTree
