import Promptwright.Proofs.Package.Write

/-!
# What files hold once they are written

Paths that are made of names and differ in them lead to different places, so no file is written over
another one of the same list.  A list of files is written up to the first one that fails: those in
front of it hold what they should, and of everything else only missing directories are there now.

## Key results

- `resolve_join_eq_append`: where a path leads to that is made of names
- `writeEach_eq_error`: the file at which writing fails
- `writeAll_writes_exactly`: what is on the disk afterwards
-/

namespace Promptwright

/-! ## Paths made of names -/

namespace Path

/-- The segments of a path that mean something. -/
def names (p : String) : List String := (segments p).filter fun s => (part? s).isSome

/-- A relative path without dots is made of names. -/
structure Plain (p : String) : Prop where
  relative : isAbsolute p = false
  noHere : .here ∉ parts p
  noUp : .up ∉ parts p

/-- What the segments of such a path mean. -/
theorem filterMap_part?_of_up_not_mem {ss : List String} (h : ".." ∉ ss) :
    ss.filterMap part? = (ss.filter fun s => (part? s).isSome).map .name := by
  induction ss with
  | nil => rfl
  | cons s ss ih =>
    rw [List.mem_cons, not_or] at h
    have ih := ih h.2
    by_cases hs : s = "" ∨ s = "."
    · have hnone : part? s = none := if_pos hs
      simpa [hnone] using ih
    · have hsome : part? s = some (.name s) := by rw [part?, if_neg hs, if_neg (Ne.symm h.1)]
      simpa [hsome] using ih

/-- The parts of such a path are its names. -/
theorem Plain.parts_eq {p : String} (h : Plain p) : parts p = (names p).map .name := by
  have hup : ".." ∉ segments p := mt up_mem_parts_iff.mpr h.noUp
  have hhere := h.noHere
  rw [names, ← filterMap_part?_of_up_not_mem hup]
  simp only [parts, h.relative, Bool.false_eq_true, if_false] at hhere ⊢
  rw [if_neg]
  intro hdot
  rw [if_pos hdot] at hhere
  exact hhere List.mem_cons_self

end Path

namespace FileTree

variable {t : FileTree} {dir p q : String} {loc loc' : Location} {ss : List String}

/-- A way that never goes up leads to the location with the names on the way. -/
theorem walk_eq_append (hss : ".." ∉ ss) (h : t.walk loc ss = .ok loc') :
    loc' = loc ++ ss.filter fun s => (Path.part? s).isSome := by
  induction ss generalizing loc with
  | nil =>
    obtain rfl := Except.ok.inj h
    exact (List.append_nil _).symm
  | cons s ss ih =>
    rw [List.mem_cons, not_or] at hss
    obtain ⟨mid, hstep, h⟩ := walk_cons_iff.mp h
    obtain rfl := ih hss.2 h
    -- the segment is blank and adds nothing, or it is a name; it does not go up
    cases hstep with
    | stay _ hs =>
      have hnone : Path.part? s = none := if_pos hs
      rw [List.filter_cons_of_neg (by simp [hnone])]
    | up _ hs => exact absurd hs.symm hss.1
    | name _ hs =>
      have hsome : Path.part? s = some (.name s) := by
        rw [Path.part?, if_neg hs.1, if_neg hs.2]
      rw [List.filter_cons_of_pos (by simp [hsome]), List.append_assoc]
      rfl

/-- A path made of names leads to these names below the directory that it is joined to. -/
theorem resolve_join_eq_append (hp : Path.Plain p) (h : t.resolve (Path.join dir p) = .ok loc) :
    ∃ base, t.walk (t.start dir) (Path.segments dir) = .ok base ∧ loc = base ++ Path.names p := by
  have hup : ".." ∉ Path.segments p := mt Path.up_mem_parts_iff.mpr hp.noUp
  obtain ⟨hstart, ds, hjoin, hds⟩ := Path.exists_segments_join dir hp.relative
  obtain ⟨-, -, hwalk⟩ := bind_eq_ok h
  rw [start, hstart, ← start, hjoin] at hwalk
  obtain ⟨base, hbase, hrest⟩ := walk_append_eq_ok hwalk
  obtain ⟨base', names, hdir, -, -⟩ :=
    exists_names_of_walk_append hup (Path.segments_ne_nil p) hds hwalk
  refine ⟨base, ?_, walk_eq_append hup hrest⟩
  obtain hds | hds := hds
  · rwa [hds]
  · -- the empty segment at the end of the directory leads nowhere else
    rw [hds, walk_append, hbase] at hdir ⊢
    obtain ⟨_, hstep, -⟩ := walk_cons_iff.mp hdir
    exact walk_blank hstep.hasDir

/-- Paths made of different names lead to different places. -/
theorem resolve_join_ne (hp : Path.Plain p) (hq : Path.Plain q) (hne : Path.parts p ≠ Path.parts q)
    (h : t.resolve (Path.join dir p) = .ok loc) (h' : t.resolve (Path.join dir q) = .ok loc') :
    loc ≠ loc' := by
  rintro rfl
  obtain ⟨base, hbase, rfl⟩ := resolve_join_eq_append hp h
  obtain ⟨base', hbase', heq⟩ := resolve_join_eq_append hq h'
  cases hbase.symm.trans hbase'
  refine hne ?_
  rw [hp.parts_eq, hq.parts_eq, List.append_cancel_left heq]

/-- What a file holds is read from its path. -/
theorem read_eq_ok {bytes : ByteArray} (h : t.resolve p = .ok loc)
    (hget : t.get? loc = some (.file bytes)) : t.read p = .ok bytes := by
  rw [read, entry, h]
  simp only [hget, bind, Except.bind]

end FileTree

namespace OutputFile

variable {t t' : FileTree} {dir path : String} {f : OutputFile} {fs : List OutputFile}
  {paths : List String} {loc : Location} {e : CompileError}

/-! ## One file -/

/-- A file that is written is there, with its contents. -/
theorem holds_of_write (h : f.write t dir = (t', .ok path)) :
    ∃ loc, t'.resolve (f.target dir) = .ok loc ∧ t'.get? loc = some (.file f.contents.toUTF8) := by
  obtain ⟨t₁, -, ⟨e, heq⟩ | ⟨t₂, hwrite, heq⟩⟩ := exists_of_write t dir f
  · cases h.symm.trans heq
  · obtain ⟨rfl, -⟩ := Prod.mk.inj (h.symm.trans heq)
    obtain ⟨loc, hresolve, hget, -⟩ := FileTree.write_updates hwrite
    exact ⟨loc, hresolve, hget⟩

/-- A file that fails leaves nothing but directories on the way to it. -/
theorem updates_of_write_eq_error (h : f.write t dir = (t', .error e)) :
    FileTree.Updates (t'.Passes (f.target dir)) (fun _ => False) t t' := by
  obtain ⟨t₁, hup, ⟨e', heq⟩ | ⟨t₂, -, heq⟩⟩ := exists_of_write t dir f
  · obtain ⟨rfl, -⟩ := Prod.mk.inj (h.symm.trans heq)
    exact hup
  · cases h.symm.trans heq

/-- An error is about a path: that of the file or of the directory that it goes to. -/
theorem path_of_write_eq_error (h : f.write t dir = (t', .error e)) :
    ∃ path reason, e = .write path reason ∧
      (path = f.target dir ∨ Path.parent? (f.target dir) = some path) := by
  rw [target] at *
  delta write at h
  dsimp only at h
  -- the directory is made first, if there is one, and then the file is written
  cases hparent : Path.parent? (Path.join dir f.path) with
  | none =>
    rw [hparent] at h
    dsimp only at h
    split at h
    next reason _ => exact ⟨_, reason, (Except.error.inj (Prod.mk.inj h).2).symm, .inl rfl⟩
    next => cases h
  | some q =>
    rw [hparent] at h
    dsimp only at h
    split at h
    next reason _ => exact ⟨q, reason, (Except.error.inj (Prod.mk.inj h).2).symm, .inr rfl⟩
    next =>
      split at h
      next reason _ => exact ⟨_, reason, (Except.error.inj (Prod.mk.inj h).2).symm, .inl rfl⟩
      next => cases h

/-! ## All files -/

section All

-- from here on it matters only what was said above
attribute [local irreducible] write

/-- Files whose paths are made of names, and differ in them. -/
structure Separate (fs : List OutputFile) : Prop where
  plain : ∀ f ∈ fs, Path.Plain f.path
  distinct : fs.Pairwise fun f g => Path.parts f.path ≠ Path.parts g.path

/-- The first of such files, and the others. -/
theorem separate_cons : Separate (f :: fs) ↔
    Path.Plain f.path ∧ (∀ g ∈ fs, Path.parts f.path ≠ Path.parts g.path) ∧ Separate fs := by
  constructor
  · intro h
    obtain ⟨hf, hfs⟩ := List.forall_mem_cons.mp h.plain
    obtain ⟨hne, hdistinct⟩ := List.pairwise_cons.mp h.distinct
    exact ⟨hf, hne, hfs, hdistinct⟩
  · rintro ⟨hf, hne, h⟩
    exact ⟨List.forall_mem_cons.mpr ⟨hf, h.plain⟩, List.pairwise_cons.mpr ⟨hne, h.distinct⟩⟩

/-- How one tree differs from an earlier one after some files were written below a directory: each
file is read back from its path, and apart from them only directories are new. -/
structure Written (dir : String) (fs : List OutputFile) (t t' : FileTree) : Prop where
  contents : ∀ f ∈ fs, t'.read (f.target dir) = .ok f.contents.toUTF8
  others : ∀ loc, (∀ f ∈ fs, t'.resolve (f.target dir) ≠ .ok loc) →
    t'.get? loc = t.get? loc ∨ (t.get? loc = none ∧ t'.get? loc = some .directory)

/-- Each file holds its contents once all are written. -/
theorem holds_of_writeEach (hfs : Separate fs) (h : writeEach dir t fs = (t', .ok paths)) :
    ∀ f ∈ fs, ∃ loc, t'.resolve (f.target dir) = .ok loc ∧
      t'.get? loc = some (.file f.contents.toUTF8) := by
  induction fs generalizing t paths with
  | nil => nofun
  | cons f fs ih =>
    obtain ⟨hf, hne, hfs⟩ := separate_cons.mp hfs
    rw [writeEach_cons] at h
    split at h
    next => cases h
    next t₁ path hfirst =>
    have hrest := writeEach_updates dir t₁ fs
    split at h
    next => cases h
    next t₂ paths' heq =>
    obtain ⟨rfl, -⟩ := Prod.mk.inj h
    rw [heq] at hrest
    refine List.forall_mem_cons.mpr ⟨?_, ih hfs heq⟩
    obtain ⟨loc, hresolve, hget⟩ := holds_of_write hfirst
    refine ⟨loc, hrest.resolve hresolve, ?_⟩
    -- what is written later goes to other places
    obtain hsame | ⟨-, hnone, -⟩ | ⟨⟨g, hg, hresolve'⟩, -, -⟩ := hrest.entry loc
    · exact hsame.trans hget
    · cases hget.symm.trans hnone
    · exact absurd rfl (FileTree.resolve_join_ne hf (hfs.plain g hg) (hne g hg)
        (hrest.resolve hresolve) hresolve')

/-- Writing fails at one of the files, after those in front of it were written. -/
theorem writeEach_eq_error (h : writeEach dir t fs = (t', .error e)) :
    ∃ before f after t₁ paths, fs = before ++ f :: after ∧
      writeEach dir t before = (t₁, .ok paths) ∧ f.write t₁ dir = (t', .error e) := by
  induction fs generalizing t with
  | nil => cases h
  | cons f fs ih =>
    rw [writeEach_cons] at h
    split at h
    next t₁ e' hfirst =>
      cases h
      exact ⟨[], f, fs, t, [], rfl, rfl, hfirst⟩
    next t₁ path hfirst =>
    split at h
    next t₂ e' heq =>
      cases h
      obtain ⟨before, g, after, t₃, paths, rfl, hbefore, hg⟩ := ih heq
      refine ⟨f :: before, g, after, t₃, path :: paths, rfl, ?_, hg⟩
      rw [writeEach_cons, hfirst]
      simp only [hbefore]
    next => cases h

/-- After files were written, and perhaps directories for another one. -/
theorem written_of_updates {t₀ t₁ : FileTree} {D D' : Location → Prop} (hfs : Separate fs)
    (hdir : FileTree.Updates D (fun _ => False) t t₀) (h : writeEach dir t₀ fs = (t₁, .ok paths))
    (hlast : FileTree.Updates D' (fun _ => False) t₁ t') : Written dir fs t t' := by
  have hup := writeEach_updates dir t₀ fs
  rw [h] at hup
  -- directories, files, directories again: together a change of files at the targets
  have hall : FileTree.Updates (fun _ => True)
      (fun loc => ∃ f ∈ fs, t₁.resolve (f.target dir) = .ok loc) t t' :=
    ((hdir.mono (fun _ _ => trivial) fun _ => False.elim).trans
      (hup.mono (fun _ _ => trivial) fun _ => id)).trans
      (hlast.mono (fun _ _ => trivial) fun _ => False.elim)
  constructor
  · intro f hf
    obtain ⟨loc, hresolve, hget⟩ := holds_of_writeEach hfs h f hf
    refine FileTree.read_eq_ok (hlast.resolve hresolve) ?_
    obtain hsame | ⟨-, hnone, -⟩ | ⟨hfile, -⟩ := hlast.entry loc
    · exact hsame.trans hget
    · cases hget.symm.trans hnone
    · exact hfile.elim
  · intro loc hloc
    obtain hsame | ⟨-, hdir⟩ | ⟨⟨f, hf, hresolve⟩, -⟩ := hall.entry loc
    · exact .inl hsame
    · exact .inr hdir
    · exact absurd (hlast.resolve hresolve) (hloc f hf)

/-- What is on a disk after files with different paths were written below a directory.  If all went
well, the paths are reported in order, each file holds its contents and no other file has changed.
If not, the error is about the directory, and no file has changed, or it is about one of the files:
those in front of it hold their contents, and no other file has changed.  One path may well go on
where another one ends; then it is at the second of the two that writing fails. -/
theorem writeAll_writes_exactly (t : FileTree) (dir : String) (hfs : Separate fs) :
    (∀ t' paths, writeAll t dir fs = (t', .ok paths) →
      paths = fs.map (target dir) ∧ Written dir fs t t') ∧
    ∀ t' e, writeAll t dir fs = (t', .error e) →
      ((∃ reason, e = .write dir reason) ∧ Written dir [] t t') ∨
      ∃ before f after path reason, fs = before ++ f :: after ∧ e = .write path reason ∧
        (path = f.target dir ∨ Path.parent? (f.target dir) = some path) ∧
        Written dir before t t' := by
  have hdir := FileTree.createDirs_updates t dir
  constructor
  · intro t' paths h
    refine ⟨(writeAll_eq_ok h).1, ?_⟩
    -- the directory is made, or that fails before any file is written
    rw [writeAll] at h
    split at h
    next => cases h
    next t₀ hmade =>
      rw [hmade] at hdir
      exact written_of_updates hfs hdir h (.refl (D := fun _ => True) t')
  · intro t' e h
    rw [writeAll] at h
    split at h
    next t₀ reason hmade =>
      cases h
      rw [hmade] at hdir
      have hnone : Separate [] := ⟨by simp, .nil⟩
      exact .inl ⟨⟨reason, rfl⟩, written_of_updates hnone hdir rfl (.refl (D := fun _ => True) _)⟩
    next t₀ hmade =>
      rw [hmade] at hdir
      obtain ⟨before, f, after, t₁, paths, rfl, hbefore, hf⟩ := writeEach_eq_error h
      obtain ⟨path, reason, he, hpath⟩ := path_of_write_eq_error hf
      -- what stands in front of the file that fails was written as on its own
      have hfront : Separate before :=
        ⟨fun g hg => hfs.plain g (List.mem_append_left _ hg),
          hfs.distinct.sublist (List.sublist_append_left _ _)⟩
      exact .inr ⟨before, f, after, path, reason, rfl, he, hpath,
        written_of_updates hfront hdir hbefore (updates_of_write_eq_error hf)⟩

end All

/-- A disk where a file stands in the way of a directory. -/
def occupied : FileTree where
  entries := [
    (["out"], .directory), (["out", "a.js"], .file "old".toUTF8), (["out", "b"], .file ⟨#[]⟩)]
  current := []

/-- Files for its directory, the last of which cannot be written. -/
def outputs : List OutputFile :=
  [⟨"node", "a.js", "new"⟩, ⟨"node", "c//d.js", "d"⟩, ⟨"node", "b/e.js", "e"⟩]

/-- The first two of these files are written, alone and together with the last one. -/
theorem writeAll_writes_exactly_occupied :
    Separate outputs ∧
      (∃ t' paths, writeAll occupied "out" (outputs.take 2) = (t', .ok paths) ∧
        paths = ["out/a.js", "out/c//d.js"] ∧ Written "out" (outputs.take 2) occupied t') ∧
      ∃ t' e, writeAll occupied "out" outputs = (t', .error e) ∧ e = .write "out/b" .exists ∧
        ∃ before f after, outputs = before ++ f :: after ∧
          Path.parent? (f.target "out") = some "out/b" ∧ Written "out" before occupied t' := by
  have hplain : ∀ f ∈ outputs, Path.Plain f.path := by
    simp only [outputs, List.forall_mem_cons]
    exact ⟨⟨by decide, by decide, by decide⟩, ⟨by decide, by decide, by decide⟩,
      ⟨by decide, by decide, by decide⟩, nofun⟩
  have hseparate : Separate outputs := ⟨hplain, by decide⟩
  have hseparate' : Separate (outputs.take 2) :=
    ⟨fun f hf => hplain f (List.mem_of_mem_take hf), by decide⟩
  have hok : ∃ t' paths, writeAll occupied "out" (outputs.take 2) = (t', .ok paths) := ⟨_, _, rfl⟩
  have hfails : ∃ t', writeAll occupied "out" outputs = (t', .error (.write "out/b" .exists)) :=
    ⟨_, rfl⟩
  obtain ⟨t', paths, hok⟩ := hok
  obtain ⟨t'', hfails⟩ := hfails
  obtain ⟨hpaths, hwritten⟩ := (writeAll_writes_exactly occupied "out" hseparate').1 t' paths hok
  refine ⟨hseparate, ⟨t', paths, hok, hpaths, hwritten⟩, t'', _, hfails, rfl, ?_⟩
  obtain ⟨⟨_, he⟩, -⟩ | ⟨before, f, after, path, reason, heq, he, hpath, hwritten⟩ :=
    (writeAll_writes_exactly occupied "out" hseparate).2 t'' _ hfails
  · exact absurd (CompileError.write.inj he).1 (by decide)
  · obtain ⟨rfl, -⟩ := CompileError.write.inj he
    have htargets : ∀ f ∈ outputs, "out/b" ≠ f.target "out" := by decide
    have hf : f ∈ outputs := heq ▸ List.mem_append_right _ List.mem_cons_self
    exact ⟨before, f, after, heq, hpath.resolve_left (htargets f hf), hwritten⟩

end OutputFile

end Promptwright
