import Promptwright.Package.SharedTypes
import Promptwright.Proofs.Files.Listing

/-!
# Walking through the templates

The templates are collected from one directory after the other.  `Reaches` says what is listed below
a directory, without a bound on the depth and without an order; the walk collects just that.

## Key results

- `collectFiles_eq_ok`, `collectFiles_eq_error`: one directory, and the walks below it
- `reaches_of_mem`, `mem_of_reaches`, `nodup_of_collectFiles`: what is collected, each once
- `exists_collectFiles_iff`, `mem_collectFiles_iff`: the same in terms of what is on the disk
-/

namespace Promptwright

open FileTree (WellFormed listed?)

variable {files : FileTree} {fuel : Nat} {dir : String} {loc : Location}
  {found part : List (List String)} {names : List String} {x : String × Bool}
  {listed : List (String × Bool)} {e : CompileError}

/-! ## One step of the walk -/

/-- What is collected for a name in a directory. -/
def collectEntry (files : FileTree) (fuel : Nat) (dir : String) (x : String × Bool) :
    Except CompileError (List (List String)) :=
  if x.2 then (collectFiles files fuel (Path.join dir x.1)).map fun found => found.map (x.1 :: ·)
  else .ok [[x.1]]

/-- A file is collected itself, and a directory with all that is collected below it. -/
theorem collectEntry_eq_ok (h : collectEntry files fuel dir x = .ok part) :
    (x.2 = false ∧ part = [[x.1]]) ∨ (x.2 = true ∧ ∃ found,
      collectFiles files fuel (Path.join dir x.1) = .ok found ∧ part = found.map (x.1 :: ·)) := by
  rw [collectEntry] at h
  split at h
  next hx =>
    obtain ⟨found, hfound, rfl⟩ := map_eq_ok h
    exact .inr ⟨hx, found, hfound, rfl⟩
  next hx => exact .inl ⟨by simpa using hx, (Except.ok.inj h).symm⟩

/-- The walk lists a directory and collects what there is for each of the names. -/
theorem collectFiles_succ (files : FileTree) (fuel : Nat) (dir : String) :
    collectFiles files (fuel + 1) dir =
      match files.readDir dir with
      | .error e => .error (.template dir e)
      | .ok listed => do return (← listed.mapM (collectEntry files fuel dir)).flatten := rfl

/-- What is collected below a directory that is listed. -/
theorem collectFiles_eq_ok (h : collectFiles files (fuel + 1) dir = .ok found) :
    ∃ listed parts, files.readDir dir = .ok listed ∧ found = parts.flatten ∧
      List.Forall₂ (fun x part => collectEntry files fuel dir x = .ok part) listed parts := by
  rw [collectFiles_succ] at h
  split at h
  next => cases h
  next listed hlisted =>
    obtain ⟨parts, hparts, h⟩ := bind_eq_ok h
    exact ⟨listed, parts, hlisted, (Except.ok.inj h).symm, mapM_eq_ok hparts⟩

/-- The walk fails at a directory that cannot be listed, or below one of those in it. -/
theorem collectFiles_eq_error (h : collectFiles files (fuel + 1) dir = .error e) :
    (∃ err, files.readDir dir = .error err ∧ e = .template dir err) ∨
      ∃ listed name, files.readDir dir = .ok listed ∧ (name, true) ∈ listed ∧
        collectFiles files fuel (Path.join dir name) = .error e := by
  rw [collectFiles_succ] at h
  split at h
  next err herr => exact .inl ⟨err, herr, (Except.error.inj h).symm⟩
  next listed hlisted =>
    obtain ⟨⟨name, isDirectory⟩, hmem, hname⟩ := mapM_eq_error (bind_pure_eq_error h)
    rw [collectEntry] at hname
    split at hname
    next hdir =>
      obtain rfl : isDirectory = true := hdir
      exact .inr ⟨listed, name, hlisted, hmem, map_eq_error hname⟩
    next => cases hname

/-! ## What is listed below a directory -/

/-- Names that lead from a directory to a file, through directories that are listed. -/
inductive Reaches (files : FileTree) : String → List String → Prop
  | file {dir name : String} {listed : List (String × Bool)}
      (hlisted : files.readDir dir = .ok listed) (hname : (name, false) ∈ listed) :
      Reaches files dir [name]
  | deeper {dir name : String} {names : List String} {listed : List (String × Bool)}
      (hlisted : files.readDir dir = .ok listed) (hname : (name, true) ∈ listed)
      (hnames : Reaches files (Path.join dir name) names) : Reaches files dir (name :: names)

/-- What is collected is found. -/
theorem reaches_of_mem (h : collectFiles files fuel dir = .ok found) (hnames : names ∈ found) :
    Reaches files dir names := by
  induction fuel generalizing dir found names with
  | zero =>
    cases h
    cases hnames
  | succ fuel ih =>
    obtain ⟨listed, parts, hlisted, rfl, hparts⟩ := collectFiles_eq_ok h
    obtain ⟨part, hpart, hnames⟩ := List.mem_flatten.mp hnames
    obtain ⟨⟨name, isDirectory⟩, hname, hpart⟩ := exists_of_mem_right hparts hpart
    obtain ⟨rfl, rfl⟩ | ⟨rfl, below, hbelow, rfl⟩ := collectEntry_eq_ok hpart
    · obtain rfl := List.mem_singleton.mp hnames
      exact .file hlisted hname
    · obtain ⟨rest, hrest, rfl⟩ := List.mem_map.mp hnames
      exact .deeper hlisted hname (ih hbelow hrest)

/-- What is found is collected, if the walk goes deep enough. -/
theorem mem_of_reaches (hnames : Reaches files dir names)
    (h : collectFiles files fuel dir = .ok found) (hfuel : names.length ≤ fuel) : names ∈ found := by
  induction hnames generalizing fuel found with
  | @file dir name listed hlisted hname =>
    obtain ⟨fuel, rfl⟩ := Nat.exists_eq_add_of_le' hfuel
    obtain ⟨listed', parts, hlisted', rfl, hparts⟩ := collectFiles_eq_ok h
    cases hlisted.symm.trans hlisted'
    obtain ⟨part, hpart, hentry⟩ := exists_of_mem_left hparts hname
    cases hentry
    exact List.mem_flatten.mpr ⟨_, hpart, List.mem_singleton_self _⟩
  | @deeper dir name names listed hlisted hname _ ih =>
    obtain ⟨fuel, rfl⟩ := Nat.exists_eq_add_of_le' (Nat.le_trans (Nat.le_add_left 1 _) hfuel)
    obtain ⟨listed', parts, hlisted', rfl, hparts⟩ := collectFiles_eq_ok h
    cases hlisted.symm.trans hlisted'
    obtain ⟨part, hpart, hentry⟩ := exists_of_mem_left hparts hname
    obtain ⟨found, hfound, rfl⟩ := map_eq_ok hentry
    exact List.mem_flatten.mpr
      ⟨_, hpart, List.mem_map_of_mem (ih hfound (Nat.le_of_succ_le_succ hfuel))⟩

/-- The names are some, and have in common what all names on the disk have. -/
theorem Reaches.forall_names {P : String → Prop}
    (hfiles : ∀ e ∈ files.entries, ∀ name ∈ e.1, P name) (h : Reaches files dir names) :
    names ≠ [] ∧ ∀ name ∈ names, P name := by
  have hname : ∀ {dir listed x}, files.readDir dir = .ok listed → x ∈ listed → P x.1 := by
    intro dir listed x hlisted hx
    obtain ⟨loc, -, -, rfl⟩ := FileTree.readDir_eq_ok_iff.mp hlisted
    obtain ⟨e, he, hloc, -⟩ := FileTree.exists_of_mem_listed hx
    exact hfiles e he x.1 (hloc ▸ List.mem_append_right _ (List.mem_singleton_self _))
  induction h with
  | file hlisted hmem =>
    exact ⟨List.cons_ne_nil _ _, List.forall_mem_singleton.mpr (hname hlisted hmem)⟩
  | deeper hlisted hmem _ ih =>
    exact ⟨List.cons_ne_nil _ _, List.forall_mem_cons.mpr ⟨hname hlisted hmem, ih.2⟩⟩

/-- Nothing is collected twice, if each location has one entry. -/
theorem nodup_of_collectFiles (hfiles : (files.entries.map Prod.fst).Nodup)
    (h : collectFiles files fuel dir = .ok found) : found.Nodup := by
  induction fuel generalizing dir found with
  | zero =>
    cases h
    exact List.nodup_nil
  | succ fuel ih =>
    obtain ⟨listed, parts, hlisted, rfl, hparts⟩ := collectFiles_eq_ok h
    obtain ⟨loc, -, -, rfl⟩ := FileTree.readDir_eq_ok_iff.mp hlisted
    have hnodup := FileTree.nodup_map_fst_listed hfiles loc
    clear h hlisted
    generalize files.entries.filterMap (listed? loc) = listed at hparts hnodup
    -- what is collected for a name starts with it
    have hhead : ∀ {x part}, collectEntry files fuel dir x = .ok part →
        part.Nodup ∧ ∀ names ∈ part, names.head? = some x.1 := by
      intro x part hpart
      obtain ⟨-, rfl⟩ | ⟨-, below, hbelow, rfl⟩ := collectEntry_eq_ok hpart
      · exact ⟨List.nodup_singleton _, List.forall_mem_singleton.mpr rfl⟩
      · exact ⟨(ih hbelow).map fun _ _ => List.tail_eq_of_cons_eq,
          List.forall_mem_map.mpr fun _ _ => rfl⟩
    induction hparts with
    | nil => exact List.nodup_nil
    | @cons x part xs parts hpart hparts ih =>
      rw [List.map_cons, List.nodup_cons] at hnodup
      obtain ⟨hpart, hfirst⟩ := hhead hpart
      rw [List.flatten_cons, List.nodup_append]
      refine ⟨hpart, ih hnodup.2, fun names hnames names' hnames' heq => hnodup.1 ?_⟩
      obtain ⟨part', hpart', hnames'⟩ := List.mem_flatten.mp hnames'
      obtain ⟨x', hx', hentry⟩ := exists_of_mem_right hparts hpart'
      have hsame := (hfirst names hnames).symm.trans (heq ▸ (hhead hentry).2 names' hnames')
      rw [Option.some.inj hsame]
      exact List.mem_map_of_mem hx'

/-! ## What there is below a directory -/

/-- There is a directory where some names lead to from the directory at a path. -/
def DirectoryBelow (files : FileTree) (dir : String) (names : List String) : Prop :=
  ∃ loc, files.LeadsTo dir loc ∧ files.hasDir (loc ++ names) = true

/-- There is a file where some names lead to from the directory at a path. -/
def FileBelow (files : FileTree) (dir : String) (names : List String) (bytes : ByteArray) : Prop :=
  ∃ loc, files.LeadsTo dir loc ∧ files.get? (loc ++ names) = some (.file bytes)

/-- All directories below the one at a path can be listed. -/
def Listable (files : FileTree) (dir : String) : Prop :=
  ∀ names, DirectoryBelow files dir names →
    ∃ listed, files.readDir (Path.joinAll dir names) = .ok listed

section Below

variable {name : String} {bytes : ByteArray} {loc' : Location}

/-- A path leads to one place. -/
theorem eq_of_leadsTo (h : files.LeadsTo dir loc) (h' : files.LeadsTo dir loc') : loc' = loc :=
  Except.ok.inj (h'.symm.trans h)

/-- A directory that is listed is where its path leads to. -/
theorem leadsTo_of_readDir (h : files.readDir dir = .ok listed) :
    ∃ loc, files.LeadsTo dir loc ∧ files.hasDir loc = true ∧
      files.entries.filterMap (listed? loc) = listed := by
  obtain ⟨loc, hresolve, hdir, hlisted⟩ := FileTree.readDir_eq_ok_iff.mp h
  exact ⟨loc, (FileTree.resolve_eq_ok_iff.mp hresolve).2, hdir, hlisted⟩

/-- Where the path of a name in a directory leads to. -/
theorem exists_leadsTo_of_join (hs : Path.IsName name) (h : files.LeadsTo (Path.join dir name) loc) :
    ∃ mid, files.LeadsTo dir mid ∧ loc = mid ++ [name] := by
  obtain ⟨mid, hmid, hstep⟩ := (FileTree.leadsTo_join_iff hs.slash).mp h
  exact ⟨mid, hmid, (hstep.of_isName hs).1⟩

/-- What is below a directory in another one is below that one. -/
theorem DirectoryBelow.of_join (hs : Path.IsName name)
    (h : DirectoryBelow files (Path.join dir name) names) :
    DirectoryBelow files dir (name :: names) := by
  obtain ⟨loc, hloc, hdir⟩ := h
  obtain ⟨mid, hmid, rfl⟩ := exists_leadsTo_of_join hs hloc
  exact ⟨mid, hmid, by rwa [List.append_assoc] at hdir⟩

/-- So is a file. -/
theorem FileBelow.of_join (hs : Path.IsName name)
    (h : FileBelow files (Path.join dir name) names bytes) :
    FileBelow files dir (name :: names) bytes := by
  obtain ⟨loc, hloc, hfile⟩ := h
  obtain ⟨mid, hmid, rfl⟩ := exists_leadsTo_of_join hs hloc
  exact ⟨mid, hmid, by rwa [List.append_assoc] at hfile⟩

/-- The path of a name leads to what has this name in the directory, if it can be listed. -/
theorem leadsTo_of_readDir_join (hs : Path.IsName name) (hloc : files.LeadsTo dir loc)
    (h : files.readDir (Path.join dir name) = .ok listed) :
    files.LeadsTo (Path.join dir name) (loc ++ [name]) := by
  obtain ⟨next, hnext, -, -⟩ := leadsTo_of_readDir h
  obtain ⟨mid, hmid, rfl⟩ := exists_leadsTo_of_join hs hnext
  rwa [eq_of_leadsTo hloc hmid] at hnext

/-- What is below a directory is below the first one on the way to it, if that can be listed. -/
theorem DirectoryBelow.join (hs : Path.IsName name)
    (h : DirectoryBelow files dir (name :: names))
    (hlisted : files.readDir (Path.join dir name) = .ok listed) :
    DirectoryBelow files (Path.join dir name) names := by
  obtain ⟨loc, hloc, hdir⟩ := h
  rw [List.append_cons] at hdir
  exact ⟨_, leadsTo_of_readDir_join hs hloc hlisted, hdir⟩

variable (hfiles : files.WellFormed)

include hfiles

/-- A name that is listed is that of something in the directory. -/
theorem exists_get?_of_mem (hlisted : files.readDir dir = .ok listed) (hx : x ∈ listed) :
    Path.IsName x.1 ∧ ∃ loc e, files.LeadsTo dir loc ∧ files.get? (loc ++ [x.1]) = some e ∧
      e.isDirectory = x.2 := by
  obtain ⟨loc, hloc, -, rfl⟩ := leadsTo_of_readDir hlisted
  obtain ⟨e, he, hdir⟩ := hfiles.mem_listed_iff.mp hx
  exact ⟨hfiles.named.isName (Option.isSome_iff_exists.mpr ⟨e, he⟩), loc, e, hloc, he, hdir⟩

/-- What is listed as a directory is one. -/
theorem directoryBelow_singleton (hlisted : files.readDir dir = .ok listed)
    (hname : (name, true) ∈ listed) : Path.IsName name ∧ DirectoryBelow files dir [name] := by
  obtain ⟨hs, loc, e, hloc, he, hdir⟩ := exists_get?_of_mem hfiles hlisted hname
  refine ⟨hs, loc, hloc, FileTree.hasDir_iff.mpr ?_⟩
  cases e with
  | directory => exact he
  | file bytes => cases hdir

/-- The first of the names that lead to something below a directory is listed there, as that of a
directory if there are more. -/
theorem exists_listed_of_isSome (hlisted : files.readDir dir = .ok listed)
    (hloc : files.LeadsTo dir loc) (hsome : (files.get? (loc ++ name :: names)).isSome = true) :
    ∃ e, files.get? (loc ++ [name]) = some e ∧ (name, e.isDirectory) ∈ listed ∧
      (names ≠ [] → e = .directory) := by
  obtain ⟨_, hloc', -, rfl⟩ := leadsTo_of_readDir hlisted
  rw [eq_of_leadsTo hloc hloc']
  -- with more names behind it the name belongs to a directory, since what is below needs one
  have hfirst : names ≠ [] → files.get? (loc ++ [name]) = some .directory := by
    intro hne
    obtain ⟨s, names, rfl⟩ := List.exists_cons_of_ne_nil hne
    apply FileTree.hasDir_iff.mp
    rw [List.append_cons] at hsome
    exact hfiles.hasDir_above hsome
  have hsome' : (files.get? (loc ++ [name])).isSome = true := by
    cases names with
    | nil => exact hsome
    | cons s names =>
      rw [hfirst (List.cons_ne_nil _ _)]
      rfl
  obtain ⟨e, he⟩ := Option.isSome_iff_exists.mp hsome'
  refine ⟨e, he, hfiles.mem_listed_iff.mpr ⟨e, he, rfl⟩, fun hne => ?_⟩
  exact Option.some.inj (he.symm.trans (hfirst hne))

/-- The first of the names that lead to a directory is listed. -/
theorem DirectoryBelow.mem_listed (h : DirectoryBelow files dir (name :: names))
    (hlisted : files.readDir dir = .ok listed) : Path.IsName name ∧ (name, true) ∈ listed := by
  obtain ⟨loc, hloc, hdir⟩ := h
  rw [FileTree.hasDir_iff] at hdir
  obtain ⟨e, he, hmem, hmore⟩ := exists_listed_of_isSome hfiles hlisted hloc (by rw [hdir]; rfl)
  have hdirectory : e = .directory := by
    cases names with
    | nil => exact Option.some.inj (he.symm.trans hdir)
    | cons s names => exact hmore (List.cons_ne_nil _ _)
  rw [hdirectory] at hmem
  exact ⟨(exists_get?_of_mem hfiles hlisted hmem).1, hmem⟩

/-! ## Walks that go well -/

/-- A walk that fails does so at a directory that cannot be listed. -/
theorem exists_directory_of_error (h : collectFiles files fuel dir = .error e) :
    ∃ names err, (names = [] ∨ DirectoryBelow files dir names) ∧
      files.readDir (Path.joinAll dir names) = .error err ∧
      e = .template (Path.joinAll dir names) err := by
  induction fuel generalizing dir with
  | zero => cases h
  | succ fuel ih =>
    obtain ⟨err, herr, rfl⟩ | ⟨listed, name, hlisted, hname, h⟩ := collectFiles_eq_error h
    · exact ⟨[], err, .inl rfl, herr, rfl⟩
    · obtain ⟨hs, hdir⟩ := directoryBelow_singleton hfiles hlisted hname
      obtain ⟨names, err, hnames, herr, rfl⟩ := ih h
      refine ⟨name :: names, err, .inr ?_, herr, rfl⟩
      obtain rfl | hnames := hnames
      · exact hdir
      · exact hnames.of_join hs

/-- A walk that goes well has listed all directories that are not too deep for it. -/
theorem exists_readDir_of_collectFiles (h : collectFiles files fuel dir = .ok found)
    (hdir : DirectoryBelow files dir names) (hfuel : names.length < fuel) :
    ∃ listed, files.readDir (Path.joinAll dir names) = .ok listed := by
  induction names generalizing dir fuel found with
  | nil =>
    obtain ⟨fuel, rfl⟩ := Nat.exists_eq_add_of_lt hfuel
    obtain ⟨listed, -, hlisted, -⟩ := collectFiles_eq_ok h
    exact ⟨listed, hlisted⟩
  | cons name names ih =>
    rw [List.length_cons] at hfuel
    obtain ⟨fuel, rfl⟩ : ∃ n, fuel = n + 2 := ⟨fuel - 2, by omega⟩
    obtain ⟨listed, parts, hlisted, -, hparts⟩ := collectFiles_eq_ok h
    obtain ⟨hs, hmem⟩ := hdir.mem_listed hfiles hlisted
    obtain ⟨part, -, hentry⟩ := exists_of_mem_left hparts hmem
    obtain ⟨below, hbelow, -⟩ := map_eq_ok hentry
    obtain ⟨listed', -, hlisted', -⟩ := collectFiles_eq_ok hbelow
    exact ih hbelow (hdir.join hs hlisted') (by omega)

/-- What is listed below a directory as a file is one. -/
theorem Reaches.exists_fileBelow (h : Reaches files dir names) :
    ∃ bytes, FileBelow files dir names bytes := by
  induction h with
  | file hlisted hname =>
    obtain ⟨-, loc, e, hloc, he, hfile⟩ := exists_get?_of_mem hfiles hlisted hname
    cases e with
    | directory => cases hfile
    | file bytes => exact ⟨bytes, loc, hloc, he⟩
  | deeper hlisted hname _ ih =>
    obtain ⟨hs, -⟩ := exists_get?_of_mem hfiles hlisted hname
    obtain ⟨bytes, h⟩ := ih
    exact ⟨bytes, h.of_join hs⟩

/-- Every file below a directory is listed, if the directories can be. -/
theorem FileBelow.reaches (h : FileBelow files dir names bytes)
    (hdir : files.isDir dir = true) (hlistable : Listable files dir) : Reaches files dir names := by
  obtain ⟨listed, hlisted⟩ := FileTree.exists_readDir_eq_ok_iff.mpr hdir
  induction names generalizing dir listed with
  | nil =>
    -- without names the file would be the directory itself
    obtain ⟨loc, hloc, hfile⟩ := h
    obtain ⟨loc', hloc', hdir', -⟩ := leadsTo_of_readDir hlisted
    rw [eq_of_leadsTo hloc hloc', FileTree.hasDir_iff] at hdir'
    rw [List.append_nil, hdir'] at hfile
    cases hfile
  | cons name names ih =>
    obtain ⟨loc, hloc, hfile⟩ := h
    obtain ⟨e, he, hmem, hmore⟩ := exists_listed_of_isSome hfiles hlisted hloc (by rw [hfile]; rfl)
    -- a last name is that of the file, and the names in front of it are those of directories
    cases names with
    | nil =>
      cases he.symm.trans hfile
      exact .file hlisted hmem
    | cons s names =>
      obtain rfl := hmore (List.cons_ne_nil _ _)
      obtain ⟨hs, hbelow⟩ := directoryBelow_singleton hfiles hlisted hmem
      obtain ⟨listed', hlisted'⟩ := hlistable [name] hbelow
      have hnext := leadsTo_of_readDir_join hs hloc hlisted'
      rw [List.append_cons] at hfile
      refine .deeper hlisted hmem (ih ⟨_, hnext, hfile⟩ ?_ ?_ listed' hlisted')
      · exact FileTree.exists_readDir_eq_ok_iff.mp ⟨listed', hlisted'⟩
      · exact fun names' hnames' => hlistable (name :: names') (hnames'.of_join hs)

/-- The templates are collected exactly if the directory and all those below it can be listed. -/
theorem exists_collectFiles_iff :
    (∃ found, collectFiles files (files.entries.length + 1) dir = .ok found) ↔
      files.isDir dir = true ∧ Listable files dir := by
  constructor
  · rintro ⟨found, h⟩
    obtain ⟨listed, -, hlisted, -⟩ := collectFiles_eq_ok h
    refine ⟨FileTree.exists_readDir_eq_ok_iff.mp ⟨listed, hlisted⟩, fun names hnames => ?_⟩
    -- no directory is too deep for the walk
    refine exists_readDir_of_collectFiles hfiles h hnames (Nat.lt_succ_of_le ?_)
    obtain ⟨loc, -, hdir⟩ := hnames
    exact hfiles.length_le (by rw [FileTree.hasDir_iff.mp hdir]; rfl)
  · rintro ⟨hdir, hlistable⟩
    cases h : collectFiles files (files.entries.length + 1) dir with
    | ok found => exact ⟨found, rfl⟩
    | error e =>
      obtain ⟨names, err, hnames, herr, -⟩ := exists_directory_of_error hfiles h
      obtain ⟨listed, hlisted⟩ : ∃ listed, files.readDir (Path.joinAll dir names) = .ok listed := by
        obtain rfl | hnames := hnames
        · exact FileTree.exists_readDir_eq_ok_iff.mpr hdir
        · exact hlistable names hnames
      cases hlisted.symm.trans herr

/-- What is collected are the files below the directory. -/
theorem mem_collectFiles_iff
    (h : collectFiles files (files.entries.length + 1) dir = .ok found) :
    names ∈ found ↔ ∃ bytes, FileBelow files dir names bytes := by
  constructor
  · exact fun hnames => (reaches_of_mem h hnames).exists_fileBelow hfiles
  · rintro ⟨bytes, hfile⟩
    obtain ⟨hdir, hlistable⟩ := (exists_collectFiles_iff hfiles).mp ⟨found, h⟩
    refine mem_of_reaches (hfile.reaches hfiles hdir hlistable) h (Nat.le_succ_of_le ?_)
    obtain ⟨loc, -, hfile⟩ := hfile
    exact hfiles.length_le (by rw [hfile]; rfl)

end Below

/-! ## Reading what is collected -/

/-- What is collected is read in the order of the names. -/
theorem read_below_of_collectFiles {root : String}
    (h : collectFiles files (files.entries.length + 1) (Path.join root templateDir) = .ok found) :
    (Templates.below root).read files =
      (found.mergeSort FileTree.namesLe).mapM (readTemplate files (Path.join root templateDir)) :=
  bind_of_eq_ok h _

/-- The templates that are read are those that are collected, in the order of the names. -/
theorem read_below_eq_ok {root : String} {texts : List (String × String)}
    (h : (Templates.below root).read files = .ok texts) : ∃ found,
      collectFiles files (files.entries.length + 1) (Path.join root templateDir) = .ok found ∧
      List.Forall₂ (fun names text =>
        readTemplate files (Path.join root templateDir) names = .ok text)
        (found.mergeSort FileTree.namesLe) texts := by
  obtain ⟨found, hfound, h⟩ := bind_eq_ok h
  exact ⟨found, hfound, mapM_eq_ok h⟩

/-- A template that is read has the path that the names on the way to it make. -/
theorem readTemplate_eq_ok {text : String × String} (h : readTemplate files dir names = .ok text) :
    text.1 = "/".intercalate names ∧ files.readText (Path.joinAll dir names) = .ok text.2 := by
  rw [readTemplate] at h
  split at h
  next => cases h
  next contents hcontents =>
    cases h
    exact ⟨rfl, hcontents⟩

/-- A template that is not read is one whose text cannot be read. -/
theorem readTemplate_eq_error (h : readTemplate files dir names = .error e) :
    ∃ err, files.readText (Path.joinAll dir names) = .error err ∧
      e = .template (Path.joinAll dir names) err := by
  rw [readTemplate] at h
  split at h
  next err herr => exact ⟨err, herr, (Except.error.inj h).symm⟩
  next => cases h

/-- So these are the paths of all templates. -/
theorem map_fst_of_readTemplate {texts : List (String × String)} (h : List.Forall₂
    (fun names text => readTemplate files dir names = .ok text) found texts) :
    texts.map Prod.fst = found.map "/".intercalate :=
  map_eq_map_of_forall₂ (h.imp fun _ _ hread => (readTemplate_eq_ok hread).1)

/-- The files with shared types are made from the templates that are read. -/
theorem sharedTypes_eq_ok_iff {templates : Templates} {d : Dialect} (hd : d.typed = true)
    {out : List OutputFile} : sharedTypes files templates d = .ok out ↔
      ∃ texts, templates.read files = .ok texts ∧ (texts.map fun (path, text) =>
        ⟨d.language, path, LibraryImport.replace d.validatorPath text⟩) = out := by
  rw [sharedTypes, if_pos hd]
  constructor
  · intro h
    obtain ⟨texts, htexts, h⟩ := bind_eq_ok h
    exact ⟨texts, htexts, Except.ok.inj h⟩
  · rintro ⟨texts, htexts, rfl⟩
    exact bind_of_eq_ok htexts _

/-- There are none if the templates cannot be read. -/
theorem read_eq_error_of_sharedTypes {templates : Templates} {d : Dialect} (hd : d.typed = true)
    (h : sharedTypes files templates d = .error e) : templates.read files = .error e := by
  rw [sharedTypes, if_pos hd] at h
  exact bind_pure_eq_error h

end Promptwright
