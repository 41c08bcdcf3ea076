import Promptwright.Proofs.Package.Contents
import Promptwright.Proofs.Package.TemplateWalk
import Promptwright.Proofs.Prompt.Discovery

/-!
# The order of shared types

However a disk lists its names, the templates are copied in the order of their paths: each file
below the directory once, and no directory.

## Key results

- `before_intercalate`: the order of names is that of the paths they make
- `exists_sameAs_of_order`: the names in each directory may be listed in any order
- `sharedTypes_in_order`: which files with shared types there are, and in which order
-/

namespace Promptwright

open FileTree (WellFormed namesLe)

/-! ## Paths of names -/

namespace Path

variable {as bs : List String}

/-- The parts of a path that is made of names. -/
theorem parts_intercalate (hne : as ≠ []) (h : ∀ s ∈ as, IsName s) :
    parts ("/".intercalate as) = as.map .name := by
  have hsegments := segments_intercalate hne fun s hs => (h s hs).slash
  have hhead : as.head? ≠ some "." := fun heq =>
    (h "." (List.mem_of_head? heq)).ne.2.1 rfl
  have hbody : as.filterMap part? = as.map .name := by
    rw [← List.filterMap_eq_map, List.filterMap_congr fun s hs => (h s hs).part?_eq]
    rfl
  simp only [parts, (inward_intercalate hne h).relative, hsegments, hhead, hbody]
  rfl

/-- Names are compared like the parts that they are. -/
theorem partsLe_map_name (as bs : List String) :
    partsLe (as.map .name) (bs.map .name) = namesLe as bs := by
  induction as generalizing bs with
  | nil => rw [List.map_nil, partsLe, namesLe]
  | cons a as ih =>
    cases bs with
    | nil => rw [List.map_cons, List.map_nil, partsLe, namesLe]
    | cons b bs =>
      simp only [List.map_cons, partsLe, namesLe, Part.name.injEq, ih]
      rfl

/-- Different names in order make different paths in order. -/
theorem before_intercalate (has : as ≠ [] ∧ ∀ s ∈ as, IsName s)
    (hbs : bs ≠ [] ∧ ∀ s ∈ bs, IsName s) :
    Before ("/".intercalate as) ("/".intercalate bs) ↔ namesLe as bs = true ∧ as ≠ bs := by
  rw [Before, le, parts_intercalate has.1 has.2, parts_intercalate hbs.1 hbs.2, partsLe_map_name]
  have hinj : Function.Injective Part.name := fun _ _ => Part.name.inj
  rw [ne_eq, (List.map_injective_iff.mpr hinj).eq_iff]

end Path

/-! ## Disks that list their names in another order -/

section Relisted

variable {files files' : FileTree} {dir : String} {names : List String} {bytes : ByteArray}

/-- The disk that lists its names in the first order. -/
theorem FileTree.SameAs.symm (h : files.SameAs files') : files'.SameAs files :=
  ⟨h.current.symm, fun loc => (h.get? loc).symm⟩

/-- On disks with the same files, the same files are below a directory. -/
theorem FileTree.SameAs.fileBelow_iff (h : files.SameAs files') :
    FileBelow files' dir names bytes ↔ FileBelow files dir names bytes := by
  simp only [FileBelow, FileTree.LeadsTo, FileTree.start, h.current, h.walk, h.get?]

/-- So are the same directories. -/
theorem FileTree.SameAs.directoryBelow_iff (h : files.SameAs files') :
    DirectoryBelow files' dir names ↔ DirectoryBelow files dir names := by
  simp only [DirectoryBelow, FileTree.LeadsTo, FileTree.start, FileTree.hasDir_iff, h.current,
    h.walk, h.get?]

/-- And the same directories are where paths lead to. -/
theorem FileTree.SameAs.isDir (h : files.SameAs files') (p : String) :
    files'.isDir p = files.isDir p := by
  simp only [FileTree.isDir, FileTree.entry, h.resolve, h.get?]

/-- And the files have the same texts. -/
theorem FileTree.SameAs.readText (h : files.SameAs files') (p : String) :
    files'.readText p = files.readText p := by
  simp only [FileTree.readText, FileTree.read, FileTree.entry, h.resolve, h.get?]

/-- So the same directories can be listed. -/
theorem FileTree.SameAs.listable_iff (h : files.SameAs files') :
    Listable files' dir ↔ Listable files dir := by
  simp only [Listable, FileTree.exists_readDir_eq_ok_iff, h.directoryBelow_iff, h.isDir]

/-- The entries of a disk may stand in any order. -/
theorem FileTree.WellFormed.of_perm (hfiles : files.WellFormed)
    (hcurrent : files'.current = files.current) (hperm : files'.entries.Perm files.entries) :
    files'.WellFormed ∧ files.SameAs files' := by
  have hlocations := (hperm.map Prod.fst).nodup_iff.mpr hfiles.locations
  have hsame : files.SameAs files' := by
    refine ⟨hcurrent, fun loc => ?_⟩
    by_cases hloc : loc = []
    · rw [hloc]
      rfl
    · refine Option.ext fun e => ?_
      rw [FileTree.get?_eq_some_iff hlocations hloc,
        FileTree.get?_eq_some_iff hfiles.locations hloc, hperm.mem_iff]
  refine ⟨⟨hsame.named hfiles.named, hlocations, fun e he => ?_⟩, hsame⟩
  rw [FileTree.hasDir_iff, hsame.get?, ← FileTree.hasDir_iff]
  exact hfiles.parents e (hperm.mem_iff.mp he)

/-- The place of a name in the order of its directory. -/
def placeIn (order : Location → List String) (loc : Location) : Nat :=
  (order loc.dropLast).idxOf (loc.getLast?.getD "")

/-- Whatever order the names have in each of the directories, there is a disk that lists them so. -/
theorem FileTree.exists_sameAs_of_order (hfiles : files.WellFormed) (order : Location → List String)
    (horder : ∀ loc, (order loc).Perm
      ((files.entries.filterMap (FileTree.listed? loc)).map Prod.fst)) :
    ∃ files' : FileTree, files'.WellFormed ∧ files.SameAs files' ∧
      ∀ p loc listed, files'.resolve p = .ok loc → files'.readDir p = .ok listed →
        listed.map Prod.fst = order loc := by
  -- the entries are sorted by the place of their names in the order of their directory
  let le := fun e e' : Location × Entry => decide (placeIn order e.1 ≤ placeIn order e'.1)
  have hperm := List.mergeSort_perm files.entries le
  have hsorted : (files.entries.mergeSort le).Pairwise fun e e' =>
      placeIn order e.1 ≤ placeIn order e'.1 := by
    refine (List.pairwise_mergeSort ?_ ?_ files.entries).imp of_decide_eq_true
    · exact fun a b c => by simpa [le] using Nat.le_trans
    · exact fun a b => by simpa [le] using Nat.le_total _ _
  let files' : FileTree := { files with entries := files.entries.mergeSort le }
  obtain ⟨hfiles', hsame⟩ : files'.WellFormed ∧ files.SameAs files' := hfiles.of_perm rfl hperm
  refine ⟨files', hfiles', hsame, fun p loc listed hresolve hlisted => ?_⟩
  obtain ⟨loc', hresolve', -, rfl⟩ := FileTree.readDir_eq_ok_iff.mp hlisted
  cases hresolve.symm.trans hresolve'
  have hnodup : (order loc).Nodup := (horder loc).nodup_iff.mpr
    (FileTree.nodup_map_fst_listed hfiles.locations loc)
  have hlisted : (((files.entries.mergeSort le).filterMap (FileTree.listed? loc)).map Prod.fst).Perm
      (order loc) := ((hperm.filterMap _).map _).trans (horder loc).symm
  have horders : (((files.entries.mergeSort le).filterMap (FileTree.listed? loc)).map
      Prod.fst).Pairwise fun a b => (order loc).idxOf a ≤ (order loc).idxOf b := by
    refine List.pairwise_map.mpr (hsorted.filterMap _ fun e e' h x hx x' hx' => ?_)
    obtain ⟨name, hname, rfl⟩ := Option.map_eq_some_iff.mp hx
    obtain ⟨name', hname', rfl⟩ := Option.map_eq_some_iff.mp hx'
    rw [FileTree.childName?_eq_some_iff] at hname hname'
    rwa [hname, hname', placeIn, placeIn, List.dropLast_concat, List.dropLast_concat,
      List.getLast?_concat, List.getLast?_concat] at h
  -- two lists of the same names in the same order are one
  refine hlisted.eq_of_pairwise ?_ horders ?_
  · intro a b _ hb hab hba
    exact ((List.idxOf_inj hb).mp (Nat.le_antisymm hba hab)).symm
  · refine List.pairwise_iff_getElem.mpr fun i j hi hj hij => ?_
    rw [hnodup.idxOf_getElem, hnodup.idxOf_getElem]
    exact Nat.le_of_lt hij

end Relisted

/-! ## What is copied -/

/-- The file that a template below a directory is copied to. -/
def IsCopy (files : FileTree) (dir : String) (d : Dialect) (names : List String) (f : OutputFile) :
    Prop :=
  ∃ bytes text, FileBelow files dir names bytes ∧ String.fromUTF8? bytes = some text ∧
    f = ⟨d.language, "/".intercalate names, LibraryImport.replace d.validatorPath text⟩

/-- Files that are copies of all that there are below a directory. -/
structure CopiedInOrder (files : FileTree) (dir : String) (d : Dialect) (out : List OutputFile) :
    Prop where
  /-- They are in the order of the parts of their paths. -/
  sorted : (out.map OutputFile.path).Pairwise Path.Before
  /-- There is one for each file at any depth, and none for anything else. -/
  each : ∃ found : List (List String), found.Nodup ∧
    (∀ names, names ∈ found ↔ ∃ bytes, FileBelow files dir names bytes) ∧
    List.Forall₂ (IsCopy files dir d) found out

/-- A directory whose files can all be copied. -/
structure Copyable (files : FileTree) (dir : String) : Prop where
  isDir : files.isDir dir = true
  listable : Listable files dir
  readable : ∀ names bytes, FileBelow files dir names bytes →
    ∃ text, files.readText (Path.joinAll dir names) = .ok text

/-- What keeps files below a directory from being copied: a directory that cannot be listed, or the
first file in the order of the paths that cannot be read. -/
inductive Refused (files : FileTree) (dir : String) : CompileError → Prop
  | directory {names : List String} {e : OsError}
      (hdir : names = [] ∨ DirectoryBelow files dir names)
      (he : files.readDir (Path.joinAll dir names) = .error e) :
      Refused files dir (.template (Path.joinAll dir names) e)
  | file {names : List String} {bytes : ByteArray} {e : OsError}
      (hfile : FileBelow files dir names bytes)
      (he : files.readText (Path.joinAll dir names) = .error e)
      (hfirst : ∀ names' bytes', FileBelow files dir names' bytes' →
        Path.Before ("/".intercalate names') ("/".intercalate names) →
          ∃ text, files.readText (Path.joinAll dir names') = .ok text) :
      Refused files dir (.template (Path.joinAll dir names) e)

section Copies

variable {files files' : FileTree} {root dir : String} {d : Dialect} {names : List String}
  {found : List (List String)} {texts : List (String × String)} {out : List OutputFile}
  {e : CompileError}

variable (hfiles : files.WellFormed)

include hfiles

/-- What is collected are names. -/
theorem forall_isName_of_mem {fuel : Nat} (hfound : collectFiles files fuel dir = .ok found)
    (h : names ∈ found) : names ≠ [] ∧ ∀ name ∈ names, Path.IsName name :=
  (reaches_of_mem hfound h).forall_names hfiles.named

/-- What is sorted is in the order of the paths. -/
theorem pairwise_before_mergeSort {fuel : Nat} (hfound : collectFiles files fuel dir = .ok found) :
    (found.mergeSort namesLe).Pairwise fun as bs =>
      Path.Before ("/".intercalate as) ("/".intercalate bs) := by
  have hnodup := (List.mergeSort_perm found namesLe).nodup_iff.mpr
    (nodup_of_collectFiles hfiles.locations hfound)
  have hsorted := List.pairwise_mergeSort Path.isOrder_namesLe.trans
    (fun as bs => Bool.or_eq_true_iff.mpr (Path.isOrder_namesLe.total as bs)) found
  refine (hsorted.and hnodup).imp_of_mem fun has hbs h => ?_
  rw [List.mem_mergeSort] at has hbs
  exact (Path.before_intercalate (forall_isName_of_mem hfiles hfound has)
    (forall_isName_of_mem hfiles hfound hbs)).mpr h

/-- The templates can be read exactly if all directories can be listed, and all files read. -/
theorem exists_read_iff : (∃ texts, (Templates.below root).read files = .ok texts) ↔
    Copyable files (Path.join root templateDir) := by
  constructor
  · rintro ⟨texts, h⟩
    obtain ⟨found, hfound, htexts⟩ := read_below_eq_ok h
    obtain ⟨hdir, hlistable⟩ := (exists_collectFiles_iff hfiles).mp ⟨found, hfound⟩
    refine ⟨hdir, hlistable, fun names bytes hfile => ?_⟩
    have hmem := (mem_collectFiles_iff hfiles hfound).mpr ⟨bytes, hfile⟩
    obtain ⟨text, -, htext⟩ := exists_of_mem_left htexts (List.mem_mergeSort.mpr hmem)
    exact ⟨text.2, (readTemplate_eq_ok htext).2⟩
  · rintro ⟨hdir, hlistable, hreadable⟩
    obtain ⟨found, hfound⟩ := (exists_collectFiles_iff hfiles).mpr ⟨hdir, hlistable⟩
    rw [read_below_of_collectFiles hfound]
    refine exists_mapM_eq_ok fun names hnames => ?_
    obtain ⟨bytes, hfile⟩ := (mem_collectFiles_iff hfiles hfound).mp (List.mem_mergeSort.mp hnames)
    obtain ⟨text, htext⟩ := hreadable names bytes hfile
    exact ⟨_, by rw [readTemplate, htext]⟩

/-- Templates that cannot be read are refused for a directory or for the first of the files. -/
theorem refused_of_read (h : (Templates.below root).read files = .error e) :
    Refused files (Path.join root templateDir) e := by
  obtain hfound | ⟨found, hfound, h⟩ := bind_eq_error h
  · obtain ⟨names, err, hnames, herr, rfl⟩ := exists_directory_of_error hfiles hfound
    exact .directory hnames herr
  · obtain ⟨before, names, after, hsplit, hbefore, he⟩ := exists_first_of_mapM_eq_error h
    have hmem : ∀ ns, ns ∈ before ++ names :: after ↔
        ∃ bytes, FileBelow files (Path.join root templateDir) ns bytes := fun ns => by
      rw [← hsplit, List.mem_mergeSort]
      exact mem_collectFiles_iff hfiles hfound
    have hsorted := pairwise_before_mergeSort hfiles hfound
    rw [hsplit, List.pairwise_append] at hsorted
    obtain ⟨-, hsorted, -⟩ := hsorted
    obtain ⟨bytes, hfile⟩ := (hmem names).mp (List.mem_append_right _ List.mem_cons_self)
    obtain ⟨err, herr, rfl⟩ := readTemplate_eq_error he
    refine .file hfile herr fun names' bytes' hfile' hlt => ?_
    obtain hnames' | hnames' := List.mem_append.mp ((hmem names').mpr ⟨bytes', hfile'⟩)
    · obtain ⟨text, htext⟩ := hbefore names' hnames'
      exact ⟨text.2, (readTemplate_eq_ok htext).2⟩
    · -- what stands behind the file does not come before it
      obtain rfl | hnames' := List.mem_cons.mp hnames'
      · exact absurd rfl hlt.2
      · have hgt := List.rel_of_pairwise_cons hsorted hnames'
        exact absurd (Path.isOrder_partsLe.antisymm _ _ hlt.1 hgt.1) hlt.2

/-- The templates that are read are copied in the order of their paths. -/
theorem copiedInOrder_of_read (h : (Templates.below root).read files = .ok texts) :
    CopiedInOrder files (Path.join root templateDir) d (texts.map fun (path, text) =>
      ⟨d.language, path, LibraryImport.replace d.validatorPath text⟩) := by
  obtain ⟨found, hfound, htexts⟩ := read_below_eq_ok h
  have hmem : ∀ {names}, names ∈ found.mergeSort namesLe ↔ names ∈ found := List.mem_mergeSort
  constructor
  · rw [List.map_map]
    have hpaths := map_fst_of_readTemplate htexts
    have hsorted := List.pairwise_map.mpr (pairwise_before_mergeSort hfiles hfound)
    rwa [← hpaths] at hsorted
  · refine ⟨found.mergeSort namesLe, ?_, fun names => ?_, ?_⟩
    · exact (List.mergeSort_perm found namesLe).nodup_iff.mpr
        (nodup_of_collectFiles hfiles.locations hfound)
    · rw [hmem]
      exact mem_collectFiles_iff hfiles hfound
    -- each text was read at its path, which leads to the file below the directory
    · rw [List.forall₂_map_right_iff]
      refine forall₂_imp_of_mem htexts fun names hnames text htext => ?_
      obtain ⟨hpath, hread⟩ := readTemplate_eq_ok htext
      obtain ⟨loc', bytes, hresolve, hget, hbytes⟩ := FileTree.readText_eq_ok_iff.mp hread
      obtain ⟨loc, hloc, rfl⟩ := FileTree.exists_leadsTo_of_joinAll
        (forall_isName_of_mem hfiles hfound (hmem.mp hnames)).2
        (FileTree.resolve_eq_ok_iff.mp hresolve).2
      exact ⟨bytes, text.2, ⟨loc, hloc, hget⟩, hbytes, by rw [← hpath]⟩

/-- Disks that list their names in another order have the same templates. -/
theorem read_eq_of_sameAs (hfiles' : files'.WellFormed) (hsame : files.SameAs files')
    (h : (Templates.below root).read files = .ok texts) :
    (Templates.below root).read files' = .ok texts := by
  obtain ⟨found, hfound, -⟩ := read_below_eq_ok h
  have hlisted : ∃ found', collectFiles files' (files'.entries.length + 1)
      (Path.join root templateDir) = .ok found' := by
    rw [exists_collectFiles_iff hfiles', hsame.isDir, hsame.listable_iff]
    exact (exists_collectFiles_iff hfiles).mp ⟨found, hfound⟩
  obtain ⟨found', hfound'⟩ := hlisted
  -- neither walk finds anything twice, and both find the files below the directory
  have hperm : found'.Perm found := by
    rw [List.perm_ext_iff_of_nodup (nodup_of_collectFiles hfiles'.locations hfound')
      (nodup_of_collectFiles hfiles.locations hfound)]
    intro names
    rw [mem_collectFiles_iff hfiles' hfound', mem_collectFiles_iff hfiles hfound]
    simp only [hsame.fileBelow_iff]
  have hread : readTemplate files' (Path.join root templateDir) =
      readTemplate files (Path.join root templateDir) := by
    funext names
    rw [readTemplate, readTemplate, hsame.readText]
  rw [read_below_of_collectFiles hfound', hread, Path.isOrder_namesLe.mergeSort_eq_of_perm hperm,
    ← read_below_of_collectFiles hfound, h]

end Copies

/-- For a dialect with types and any directory with templates: if all directories can be listed and
all files read, each file at any depth is copied once, in the order of the paths, and nothing else
is.  If one of them cannot, there is an error.  In which order the disk lists the names makes no
difference to the files. -/
theorem sharedTypes_in_order {files : FileTree} {d : Dialect} (hd : d.typed = true)
    (hfiles : files.WellFormed) (root : String) :
    ((∃ out, sharedTypes files (.below root) d = .ok out) ↔
      Copyable files (Path.join root templateDir)) ∧
    (∀ out, sharedTypes files (.below root) d = .ok out →
      CopiedInOrder files (Path.join root templateDir) d out) ∧
    (∀ e, sharedTypes files (.below root) d = .error e →
      Refused files (Path.join root templateDir) e) ∧
    ∀ files', files'.WellFormed → files.SameAs files' → ∀ out,
      (sharedTypes files' (.below root) d = .ok out ↔
        sharedTypes files (.below root) d = .ok out) := by
  have hrelisted : ∀ {files files' : FileTree}, files.WellFormed → files'.WellFormed →
      files.SameAs files' → ∀ {out}, sharedTypes files (.below root) d = .ok out →
        sharedTypes files' (.below root) d = .ok out := by
    intro files files' hfiles hfiles' hsame out h
    obtain ⟨texts, htexts, hout⟩ := (sharedTypes_eq_ok_iff hd).mp h
    exact (sharedTypes_eq_ok_iff hd).mpr
      ⟨texts, read_eq_of_sameAs hfiles hfiles' hsame htexts, hout⟩
  refine ⟨?_, fun out h => ?_, fun e h => ?_, fun files' hfiles' hsame out => ?_⟩
  · rw [← exists_read_iff hfiles]
    simp only [sharedTypes_eq_ok_iff hd]
    exact ⟨fun ⟨_, texts, htexts, _⟩ => ⟨texts, htexts⟩,
      fun ⟨texts, htexts⟩ => ⟨_, texts, htexts, rfl⟩⟩
  · obtain ⟨texts, htexts, rfl⟩ := (sharedTypes_eq_ok_iff hd).mp h
    exact copiedInOrder_of_read hfiles htexts
  · exact refused_of_read hfiles (read_eq_error_of_sharedTypes hd h)
  · exact ⟨hrelisted hfiles' hfiles hsame.symm, hrelisted hfiles hfiles' hsame⟩

/-- A disk with templates, one of them in a directory of its own. -/
def withNestedTemplate : FileTree where
  entries := [
    (["pkg"], .directory),
    (["pkg", "templates"], .directory),
    (["pkg", "templates", "typescript"], .directory),
    (["pkg", "templates", "typescript", "b.ts"], .file ⟨#[]⟩),
    (["pkg", "templates", "typescript", "a-b.ts"], .file ⟨#[]⟩),
    (["pkg", "templates", "typescript", "a"], .directory),
    (["pkg", "templates", "typescript", "a", "c.ts"], .file ⟨#[]⟩)]
  current := []

/-- The same disk, which lists its names the other way around. -/
def withNestedTemplateReversed : FileTree :=
  { withNestedTemplate with entries := withNestedTemplate.entries.reverse }

/-- What is in the directory comes first, though its path is the second one in the order of texts.
On the disk that lists its names the other way around it is the same. -/
theorem sharedTypes_in_order_nested :
    Dialect.typescript.typed = true ∧ withNestedTemplate.WellFormed ∧
      ∃ out, sharedTypes withNestedTemplate (.below "pkg") .typescript = .ok out ∧
        out.map OutputFile.path = ["a/c.ts", "a-b.ts", "b.ts"] ∧
        CopiedInOrder withNestedTemplate (Path.join "pkg" templateDir) .typescript out ∧
        sharedTypes withNestedTemplateReversed (.below "pkg") .typescript = .ok out := by
  have htyped : Dialect.typescript.typed = true := rfl
  have hfiles : withNestedTemplate.WellFormed := ⟨by decide, by decide, by decide⟩
  have hfound : collectFiles withNestedTemplate (withNestedTemplate.entries.length + 1)
      (Path.join "pkg" templateDir) = .ok [["b.ts"], ["a-b.ts"], ["a", "c.ts"]] := rfl
  have hsorted : [["b.ts"], ["a-b.ts"], ["a", "c.ts"]].mergeSort namesLe =
      [["a", "c.ts"], ["a-b.ts"], ["b.ts"]] := by
    have hreversed : [["b.ts"], ["a-b.ts"], ["a", "c.ts"]] =
        [["a", "c.ts"], ["a-b.ts"], ["b.ts"]].reverse := rfl
    rw [hreversed, Path.isOrder_namesLe.mergeSort_eq_of_perm (List.reverse_perm _)]
    exact List.mergeSort_of_pairwise (by decide)
  have hout : sharedTypes withNestedTemplate (.below "pkg") .typescript =
      .ok [⟨"typescript", "a/c.ts", ""⟩, ⟨"typescript", "a-b.ts", ""⟩,
        ⟨"typescript", "b.ts", ""⟩] := by
    rw [sharedTypes, if_pos htyped, read_below_of_collectFiles hfound, hsorted]
    rfl
  obtain ⟨-, hcopied, -, hrelisted⟩ := sharedTypes_in_order htyped hfiles "pkg"
  obtain ⟨hfiles', hsame⟩ : withNestedTemplateReversed.WellFormed ∧
      withNestedTemplate.SameAs withNestedTemplateReversed :=
    hfiles.of_perm rfl (List.reverse_perm _)
  exact ⟨htyped, hfiles, _, hout, rfl, hcopied _ hout, (hrelisted _ hfiles' hsame _).mpr hout⟩

end Promptwright
