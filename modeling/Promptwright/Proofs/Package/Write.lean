import Promptwright.Package.Write
import Promptwright.Proofs.Files.Changes

/-!
# Where files are written

Files are written one after the other, each at its path below a directory, with the directories on
the way to it.  Whether that goes well or ends with a failure, nothing else changes.  If no path
leads upwards, everything that changes lies below the directory, apart from what had to be created on
the way to it.

## Key results

- `OutputFile.writeAll_updates`: what changes when files are written
- `OutputFile.writeAll_eq_ok`: what is reported
- `OutputFile.below_of_writeAll`: paths that do not lead upwards
-/

namespace Promptwright

/-! ## Below a directory -/

namespace FileTree

/-- Whether a location is below the one that a path leads to, at any depth.  An empty path leads to
the current directory. -/
def Below (t : FileTree) (p : String) (loc : Location) : Prop :=
  ∃ base names, t.walk (t.start p) (Path.segments p) = .ok base ∧ names ≠ [] ∧ loc = base ++ names

variable {t : FileTree} {dir p : String} {loc : Location}

/-- A way to a directory that goes on along a path which never leads upwards. -/
theorem exists_names_of_walk_append {ds ss : List String} (hup : ".." ∉ ss) (hne : ss ≠ [])
    (hds : Path.segments dir = ds ∨ Path.segments dir = ds ++ [""])
    (h : t.walk (t.start dir) (ds ++ ss) = .ok loc) :
    ∃ base names, t.walk (t.start dir) (Path.segments dir) = .ok base ∧ t.hasDir base = true ∧
      loc = base ++ names := by
  obtain ⟨base, hbase, hwalk⟩ := walk_append_eq_ok h
  obtain ⟨names, hnames⟩ := exists_names_of_walk hup hwalk
  have hdir : t.hasDir base = true := by
    obtain ⟨s, ss, rfl⟩ := List.exists_cons_of_ne_nil hne
    obtain ⟨_, hstep, -⟩ := walk_cons_iff.mp hwalk
    exact hstep.hasDir
  refine ⟨base, names, ?_, hdir, hnames⟩
  obtain hds | hds := hds
  · rwa [hds]
  · rw [hds, walk_append, hbase]
    exact walk_blank hdir

/-- What a path passes that is joined to a directory: something on the way to the directory, or
something below it. -/
theorem passes_or_below_of_passes_join (hp : Path.Inward p) (h : t.Passes (Path.join dir p) loc) :
    t.Passes dir loc ∨ t.Below dir loc := by
  have hup : ".." ∉ Path.segments p := fun hmem => hp.inside (Path.up_mem_parts_iff.mpr hmem)
  obtain ⟨hstart, ds, hjoin, hds⟩ := Path.exists_segments_join dir hp.relative
  obtain ⟨ss, hss, hwalk⟩ := h
  rw [start, hstart, ← start] at hwalk
  rw [hjoin] at hss
  have hprefix : ds <+: Path.segments dir := by
    obtain hds | hds := hds
    · rw [hds]
    · rw [hds]
      exact List.prefix_append _ _
  -- the path has got no further than the directory, or it goes on behind it
  obtain hss' | ⟨more, rfl⟩ := List.prefix_or_prefix_of_prefix hss (List.prefix_append ds _)
  · exact .inl ⟨ss, hss'.trans hprefix, hwalk⟩
  obtain rfl | hne := eq_or_ne more []
  · exact .inl ⟨ds, hprefix, by rwa [List.append_nil] at hwalk⟩
  have hmore := (List.prefix_append_right_inj ds).mp hss
  obtain ⟨base, names, hbase, -, rfl⟩ :=
    exists_names_of_walk_append (fun hmem => hup (hmore.subset hmem)) hne hds hwalk
  obtain rfl | hnames := eq_or_ne names []
  · rw [List.append_nil]
    exact .inl ⟨_, List.prefix_refl _, hbase⟩
  · exact .inr ⟨base, names, hbase, hnames, rfl⟩

/-- A file that a path leads to which is joined to a directory is below this directory. -/
theorem below_of_resolve_join {bytes : ByteArray} (hp : Path.Inward p)
    (h : t.resolve (Path.join dir p) = .ok loc) (hfile : t.get? loc = some (.file bytes)) :
    t.Below dir loc := by
  have hup : ".." ∉ Path.segments p := fun hmem => hp.inside (Path.up_mem_parts_iff.mpr hmem)
  obtain ⟨hstart, ds, hjoin, hds⟩ := Path.exists_segments_join dir hp.relative
  obtain ⟨-, -, hwalk⟩ := bind_eq_ok h
  rw [start, hstart, ← start, hjoin] at hwalk
  obtain ⟨base, names, hbase, hdir, rfl⟩ :=
    exists_names_of_walk_append hup (Path.segments_ne_nil p) hds hwalk
  refine ⟨base, names, hbase, ?_, rfl⟩
  -- without names it would be the directory itself, which is no file
  rintro rfl
  rw [List.append_nil, hasDir_iff.mp hdir] at hfile
  cases hfile

end FileTree

namespace OutputFile

variable {t t' : FileTree} {dir path : String} {f : OutputFile} {fs : List OutputFile}
  {paths : List String} {loc : Location}

/-! ## One file -/

/-- The path of a file below a directory. -/
def target (dir : String) (f : OutputFile) : String := Path.join dir f.path

/-- How a file is written: first the directories on the way to it, and then, if these are there, the
file itself. -/
theorem exists_of_write (t : FileTree) (dir : String) (f : OutputFile) :
    ∃ t₁, FileTree.Updates (t₁.Passes (f.target dir)) (fun _ => False) t t₁ ∧
      ((∃ e, f.write t dir = (t₁, .error e)) ∨
        ∃ t₂, t₁.write (f.target dir) f.contents.toUTF8 = .ok t₂ ∧
          f.write t dir = (t₂, .ok (f.target dir))) := by
  rw [target]
  -- an equation for the whole function would take long to derive
  delta write
  dsimp only
  cases hparent : Path.parent? (Path.join dir f.path) with
  | none =>
    refine ⟨t, .refl t, ?_⟩
    dsimp only
    cases t.write (Path.join dir f.path) f.contents.toUTF8 with
    | error e => exact .inl ⟨_, rfl⟩
    | ok t₂ => exact .inr ⟨t₂, rfl, rfl⟩
  | some q =>
    have hup := FileTree.createDirs_parent_updates t hparent
    dsimp only
    generalize t.createDirs q = made at hup ⊢
    obtain ⟨t₁, made⟩ := made
    refine ⟨t₁, hup, ?_⟩
    dsimp only
    cases made with
    | error e => exact .inl ⟨_, rfl⟩
    | ok =>
      dsimp only
      cases t₁.write (Path.join dir f.path) f.contents.toUTF8 with
      | error e => exact .inl ⟨_, rfl⟩
      | ok t₂ => exact .inr ⟨t₂, rfl, rfl⟩

/-- Writing a file changes what its path passes: directories are created on the way, and the file is
written where the path leads to. -/
theorem write_updates (t : FileTree) (dir : String) (f : OutputFile) :
    FileTree.Updates ((f.write t dir).1.Passes (f.target dir))
      (fun loc => (f.write t dir).1.resolve (f.target dir) = .ok loc) t (f.write t dir).1 := by
  obtain ⟨t₁, hup, ⟨e, h⟩ | ⟨t₂, hwrite, h⟩⟩ := exists_of_write t dir f
  · rw [h]
    exact hup.mono (fun _ => id) fun _ => False.elim
  · obtain ⟨loc, hresolve, -, hlast⟩ := FileTree.write_updates hwrite
    rw [h]
    refine (hup.mono (fun _ => hlast.passes) fun _ => False.elim).trans
      (hlast.mono (fun _ => False.elim) fun loc' heq => ?_)
    rw [heq]
    exact hresolve

/-- A file that is reported is there. -/
theorem isFile_of_write (h : f.write t dir = (t', .ok path)) :
    path = f.target dir ∧ t'.isFile path = true := by
  obtain ⟨t₁, -, ⟨e, heq⟩ | ⟨t₂, hwrite, heq⟩⟩ := exists_of_write t dir f
  · cases h.symm.trans heq
  · obtain ⟨rfl, hpath⟩ := Prod.mk.inj (h.symm.trans heq)
    obtain rfl := Except.ok.inj hpath
    obtain ⟨loc, hresolve, hget, -⟩ := FileTree.write_updates hwrite
    exact ⟨rfl, FileTree.isFile_iff.mpr ⟨loc, _, hresolve, hget⟩⟩

/-! ## All files -/

-- from here on it matters only what was said above
attribute [local irreducible] write

/-- The first file is written before the others. -/
theorem writeEach_cons (dir : String) (t : FileTree) (f : OutputFile) (fs : List OutputFile) :
    writeEach dir t (f :: fs) =
      match f.write t dir with
      | (t', .error e) => (t', .error e)
      | (t', .ok path) =>
        match writeEach dir t' fs with
        | (t'', .error e) => (t'', .error e)
        | (t'', .ok paths) => (t'', .ok (path :: paths)) := rfl

/-- Writing files changes what their paths pass. -/
theorem writeEach_updates (dir : String) (t : FileTree) (fs : List OutputFile) :
    FileTree.Updates (fun loc => ∃ f ∈ fs, (writeEach dir t fs).1.Passes (f.target dir) loc)
      (fun loc => ∃ f ∈ fs, (writeEach dir t fs).1.resolve (f.target dir) = .ok loc) t
      (writeEach dir t fs).1 := by
  induction fs generalizing t with
  | nil => exact .refl t
  | cons f fs ih =>
    have hfirst := write_updates t dir f
    rw [writeEach_cons]
    split
    next t' e h =>
      rw [h] at hfirst
      dsimp only at hfirst ⊢
      exact hfirst.mono (fun _ hd => ⟨f, List.mem_cons_self, hd⟩)
        fun _ hf => ⟨f, List.mem_cons_self, hf⟩
    next t' path h =>
      rw [h] at hfirst
      dsimp only at hfirst
      have hrest := ih t'
      -- where the first path led before the others were written, it leads still
      have hboth : FileTree.Updates
          (fun loc => ∃ g ∈ f :: fs, (writeEach dir t' fs).1.Passes (g.target dir) loc)
          (fun loc => ∃ g ∈ f :: fs, (writeEach dir t' fs).1.resolve (g.target dir) = .ok loc) t
          (writeEach dir t' fs).1 :=
        (hfirst.mono (fun _ hd => ⟨f, List.mem_cons_self, hrest.passes hd⟩)
          fun _ hf => ⟨f, List.mem_cons_self, hrest.resolve hf⟩).trans
        (hrest.mono (fun _ ⟨g, hg, hd⟩ => ⟨g, List.mem_cons_of_mem _ hg, hd⟩)
          fun _ ⟨g, hg, hf⟩ => ⟨g, List.mem_cons_of_mem _ hg, hf⟩)
      split
      next t'' e h' => rwa [h'] at hboth
      next t'' paths h' => rwa [h'] at hboth

/-- Writing files below a directory changes what the directory and the paths of the files pass. -/
theorem writeAll_updates (t : FileTree) (dir : String) (fs : List OutputFile) :
    FileTree.Updates
      (fun loc => (writeAll t dir fs).1.Passes dir loc ∨
        ∃ f ∈ fs, (writeAll t dir fs).1.Passes (f.target dir) loc)
      (fun loc => ∃ f ∈ fs, (writeAll t dir fs).1.resolve (f.target dir) = .ok loc) t
      (writeAll t dir fs).1 := by
  have hdir := FileTree.createDirs_updates t dir
  rw [writeAll]
  split
  next t' e h =>
    rw [h] at hdir
    exact hdir.mono (fun _ => .inl) fun _ => False.elim
  next t' h =>
    rw [h] at hdir
    have hfiles := writeEach_updates dir t' fs
    exact (hdir.mono (fun _ hd => .inl (hfiles.passes hd)) fun _ => False.elim).trans
      (hfiles.mono (fun _ => .inr) fun _ => id)

/-- The paths of all files are reported, and lead to files. -/
theorem writeEach_eq_ok (h : writeEach dir t fs = (t', .ok paths)) :
    paths = fs.map (target dir) ∧ ∀ path ∈ paths, t'.isFile path = true := by
  induction fs generalizing t paths with
  | nil =>
    cases h
    exact ⟨rfl, nofun⟩
  | cons f fs ih =>
    rw [writeEach_cons] at h
    split at h
    next => cases h
    next t₁ path hfirst =>
    obtain ⟨rfl, hfile⟩ := isFile_of_write hfirst
    -- files that are written later leave this one a file
    have hrest := writeEach_updates dir t₁ fs
    split at h
    next => cases h
    next t₂ paths' heq =>
    cases h
    obtain ⟨rfl, hfiles⟩ := ih heq
    rw [heq] at hrest
    exact ⟨rfl, List.forall_mem_cons.mpr ⟨hrest.isFile hfile, hfiles⟩⟩

/-- The paths of all files are reported, and lead to files. -/
theorem writeAll_eq_ok (h : writeAll t dir fs = (t', .ok paths)) :
    paths = fs.map (target dir) ∧ ∀ path ∈ paths, t'.isFile path = true := by
  rw [writeAll] at h
  split at h
  next => cases h
  next => exact writeEach_eq_ok h

/-! ## Paths that do not lead upwards -/

/-- Wherever files are written whose paths stay inside: what changes is below the directory, or it is
a directory that was missing on the way. -/
theorem below_of_writeAll (hfs : ∀ f ∈ fs, Path.Inward f.path)
    (hloc : (writeAll t dir fs).1.get? loc ≠ t.get? loc) :
    (t.get? loc = none ∧ (writeAll t dir fs).1.get? loc = some .directory ∧
      (writeAll t dir fs).1.Passes dir loc) ∨ (writeAll t dir fs).1.Below dir loc := by
  have hup := writeAll_updates t dir fs
  generalize (writeAll t dir fs).1 = t' at *
  obtain heq | ⟨hpasses | ⟨f, hf, hpasses⟩, hnone, hdir⟩ | ⟨⟨f, hf, hresolve⟩, -, bytes, hbytes⟩ :=
    hup.entry loc
  · exact absurd heq hloc
  · exact .inl ⟨hnone, hdir, hpasses⟩
  · obtain hpasses | hbelow := FileTree.passes_or_below_of_passes_join (hfs f hf) hpasses
    · exact .inl ⟨hnone, hdir, hpasses⟩
    · exact .inr hbelow
  · exact .inr (FileTree.below_of_resolve_join (hfs f hf) hresolve hbytes)

end OutputFile

end Promptwright
