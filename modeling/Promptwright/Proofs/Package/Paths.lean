import Promptwright.Proofs.Files.Segments
import Promptwright.Proofs.Package.Compile
import Promptwright.Proofs.Package.TemplateWalk

/-!
# The paths of a package

A package has files from two sources: those with shared types, which are copied with the paths that
they have below the templates, and the modules with their index, whose paths are made from the names
of prompts.  Within each source all paths are different.  Nothing compares the one source with the
other, so a template with the path of the index is lost when the package is written.

## Key results

- `nodup_map_path_sharedTypes`: no two files with shared types have the same path
- `nodup_modulePaths_of_finish`: neither have two modules, or a module and the index
- `nodup_paths_iff`: all paths of a package are different exactly if the two sources share none
- `repeated_index_path`: a package with two files for its index
-/

namespace Promptwright

/-! ## Disks -/

namespace FileTree

/-- What holds of every disk: there is one entry for a location, and no name holds a slash. -/
structure Lawful (t : FileTree) : Prop where
  locations : (t.entries.map Prod.fst).Nodup
  names : ∀ e ∈ t.entries, ∀ name ∈ e.1, '/' ∉ name.toList

end FileTree

/-! ## Shared types -/

/-- Names without slashes can be told from what stands between the slashes. -/
theorem intercalate_slash_injective {names names' : List String} (hne : names ≠ [])
    (hne' : names' ≠ []) (h : ∀ name ∈ names, '/' ∉ name.toList)
    (h' : ∀ name ∈ names', '/' ∉ name.toList)
    (heq : "/".intercalate names = "/".intercalate names') : names = names' := by
  rw [← Path.segments_intercalate hne h, heq, Path.segments_intercalate hne' h']

section Shared

variable {files : FileTree} {templates : Templates} {d : Dialect}

/-- No two templates have the same path. -/
theorem nodup_map_fst_of_read (hfiles : files.Lawful) {texts : List (String × String)}
    (h : templates.read files = .ok texts) : (texts.map Prod.fst).Nodup := by
  cases templates with
  | builtin =>
    cases h
    exact List.pairwise_singleton _ _
  | below root =>
    obtain ⟨found, hfound, htexts⟩ := read_below_eq_ok h
    have hnodup := nodup_of_collectFiles hfiles.locations hfound
    have hnames : ∀ names ∈ found, names ≠ [] ∧ ∀ name ∈ names, '/' ∉ name.toList := fun names h =>
      (reaches_of_mem hfound h).forall_names hfiles.names
    rw [map_fst_of_readTemplate htexts]
    have hsorted := (List.mergeSort_perm found FileTree.namesLe).nodup_iff.mpr hnodup
    refine hsorted.map_on fun names h names' h' heq => ?_
    obtain ⟨hsome, hslash⟩ := hnames names (List.mem_mergeSort.mp h)
    obtain ⟨hsome', hslash'⟩ := hnames names' (List.mem_mergeSort.mp h')
    exact intercalate_slash_injective hsome hsome' hslash hslash' heq

/-- No two files with shared types have the same path. -/
theorem nodup_map_path_sharedTypes (hfiles : files.Lawful) {types : List OutputFile}
    (h : sharedTypes files templates d = .ok types) : (types.map OutputFile.path).Nodup := by
  rw [sharedTypes] at h
  split at h
  next =>
    obtain ⟨texts, htexts, h⟩ := bind_eq_ok h
    cases h
    rw [List.map_map]
    exact nodup_map_fst_of_read hfiles htexts
  next =>
    cases h
    exact List.nodup_nil

end Shared

/-! ## Modules and the index -/

/-- The paths of the modules of prompts and of their index. -/
def modulePaths (d : Dialect) (ps : List Prompt) : List String :=
  (ps.map fun p => d.fileName (ModuleContent.stemOf p)) ++ [d.fileName "index"]

/-- The modules and the index have the paths that the prompts ask for, and all are different. -/
theorem nodup_modulePaths_of_finish {d : Dialect} {ps : List Prompt} {ms : List ModuleContent}
    {rest : List OutputFile}
    (hms : List.Forall₂ (fun p m => ModuleContent.ofPrompt p = .ok m) ps ms)
    (h : finish d ms = .ok rest) :
    rest.map OutputFile.path = modulePaths d ps ∧ (modulePaths d ps).Nodup := by
  rw [finish] at h
  simp only [map_path_of_forall₂ hms] at h
  -- both tests have been passed, or there would be no files
  split at h
  next => cases h
  next hrepeated =>
    split at h
    next => cases h
    next hindex =>
      cases h
      constructor
      · rw [List.map_append, map_path_of_forall₂ hms]
        rfl
      · have hindex : d.fileName "index" ∉ ps.map fun p => d.fileName (ModuleContent.stemOf p) :=
          fun hmem => hindex (List.contains_iff_mem.mpr hmem)
        rw [modulePaths, List.nodup_append]
        refine ⟨(nodup_of_repeatedPath? hrepeated).1, List.pairwise_singleton _ _, ?_⟩
        intro path hpath path' hpath' heq
        rw [List.mem_singleton.mp hpath'] at heq
        exact hindex (heq ▸ hpath)

/-! ## The package -/

/-- Formatting does not change the path of a file. -/
theorem Gate.path_of_formatFile {g : Gate} {file formatted : OutputFile}
    (h : g.formatFile file = .ok formatted) : formatted.path = file.path := by
  rw [formatFile] at h
  split at h
  next => cases h
  next =>
    split at h
    next =>
      cases h
      rfl
    next => cases h

namespace Compiler

variable {c : Compiler} {files : FileTree} {d : Dialect} {ps : List Prompt} {out : List OutputFile}

/-- The paths of what is assembled: first the shared types, then modules and index. -/
theorem map_path_of_assemble (h : c.assemble files d ps = .ok out) :
    ∃ types, sharedTypes files c.templates d = .ok types ∧ (modulePaths d ps).Nodup ∧
      out.map OutputFile.path = types.map OutputFile.path ++ modulePaths d ps := by
  obtain ⟨types, htypes, h⟩ := bind_eq_ok h
  obtain ⟨ms, hms, h⟩ := bind_eq_ok h
  obtain ⟨rest, hrest, h⟩ := bind_eq_ok h
  cases h
  have hms := (forall₂_of_mapInOrder hms).imp fun _ _ => moduleOf_eq_ok
  obtain ⟨hpaths, hnodup⟩ := nodup_modulePaths_of_finish hms hrest
  exact ⟨types, htypes, hnodup, by rw [List.map_append, hpaths]⟩

/-- Compiling gives files with the paths of what is assembled. -/
theorem map_path_of_compile (h : c.compile files d ps = .ok out) :
    ∃ assembled, c.assemble files d ps = .ok assembled ∧
      out.map OutputFile.path = assembled.map OutputFile.path := by
  obtain ⟨assembled, hassembled, hformat⟩ := bind_eq_ok h
  have hpaths := (forall₂_of_mapInOrder hformat).imp fun _ _ => Gate.path_of_formatFile
  refine ⟨assembled, hassembled, ?_⟩
  clear h hassembled hformat
  induction hpaths with
  | nil => rfl
  | cons hpath _ ih => rw [List.map_cons, List.map_cons, hpath, ih]

/-- Whatever prompts and templates there are: the modules and the index of a package have different
paths, so have its shared types, and all paths are different exactly if none of the shared types
has the path of a module or of the index. -/
theorem nodup_paths_iff (hfiles : files.Lawful)
    (h : c.assemble files d ps = .ok out ∨ c.compile files d ps = .ok out) :
    ∃ types, sharedTypes files c.templates d = .ok types ∧
      out.map OutputFile.path = types.map OutputFile.path ++ modulePaths d ps ∧
      (modulePaths d ps).Nodup ∧ (types.map OutputFile.path).Nodup ∧
      ((out.map OutputFile.path).Nodup ↔
        ∀ t ∈ types, t.path ∉ modulePaths d ps) := by
  -- formatting keeps the paths
  have hassembled : ∃ assembled, c.assemble files d ps = .ok assembled ∧
      out.map OutputFile.path = assembled.map OutputFile.path := by
    obtain h | h := h
    · exact ⟨out, h, rfl⟩
    · exact map_path_of_compile h
  obtain ⟨assembled, hassembled, hout⟩ := hassembled
  obtain ⟨types, htypes, hmodules, hpaths⟩ := map_path_of_assemble hassembled
  have hshared := nodup_map_path_sharedTypes hfiles htypes
  refine ⟨types, htypes, hout.trans hpaths, hmodules, hshared, ?_⟩
  rw [hout, hpaths, List.nodup_append]
  constructor
  · rintro ⟨-, -, hdisjoint⟩ t ht hmem
    exact hdisjoint t.path (List.mem_map_of_mem ht) t.path hmem rfl
  · intro hdisjoint
    refine ⟨hshared, hmodules, ?_⟩
    intro path hpath path' hpath' heq
    obtain ⟨t, ht, rfl⟩ := List.mem_map.mp hpath
    exact hdisjoint t ht (heq ▸ hpath')

/-- A disk with templates for the shared types and for an index. -/
def withIndexTemplate : FileTree where
  entries := [
    (["pkg"], .directory),
    (["pkg", "templates"], .directory),
    (["pkg", "templates", "typescript"], .directory),
    (["pkg", "templates", "typescript", "types.ts"], .file ⟨#[]⟩),
    (["pkg", "templates", "typescript", "index.ts"], .file ⟨#[]⟩)]
  current := []

/-- It is a disk like any other. -/
theorem lawful_withIndexTemplate : withIndexTemplate.Lawful where
  locations := by decide
  names := by decide

/-- The compiler that takes its templates from there. -/
def belowPkg : Compiler := { templates := .below "pkg" }

/-- The templates are copied in the order of their paths. -/
theorem sharedTypes_withIndexTemplate :
    sharedTypes withIndexTemplate (.below "pkg") .typescript =
      .ok [⟨"typescript", "index.ts", ""⟩, ⟨"typescript", "types.ts", ""⟩] := by
  have hfound : collectFiles withIndexTemplate 6 (Path.join "pkg" templateDir) =
      .ok [["types.ts"], ["index.ts"]] := rfl
  -- sorting is no computation that a decision procedure can follow, so it is done by its rules
  have hsorted : [["types.ts"], ["index.ts"]].mergeSort FileTree.namesLe =
      [["index.ts"], ["types.ts"]] := by
    have hle : FileTree.namesLe ["types.ts"] ["index.ts"] = false := by decide
    simp [List.mergeSort, hle]
  have hread : Templates.read withIndexTemplate (.below "pkg") =
      .ok [("index.ts", ""), ("types.ts", "")] := by
    have hlength : withIndexTemplate.entries.length + 1 = 6 := rfl
    rw [Templates.read, hlength, hfound, bind_of_eq_ok rfl, hsorted]
    rfl
  rw [sharedTypes, hread]
  rfl

/-- What is made of no prompts. -/
theorem compile_withIndexTemplate :
    ∃ out, belowPkg.compile withIndexTemplate .typescript [] = .ok out ∧
      out.map OutputFile.path = ["index.ts", "types.ts", "index.ts"] := by
  have hassemble : belowPkg.assemble withIndexTemplate .typescript [] =
      .ok [⟨"typescript", "index.ts", ""⟩, ⟨"typescript", "types.ts", ""⟩,
        indexFile .typescript []] := by
    rw [assemble, belowPkg, sharedTypes_withIndexTemplate]
    rfl
  rw [compile, hassemble]
  refine ⟨_, rfl, ?_⟩
  decide

/-- Two files have the path of the index: the template, and the index that is made. -/
theorem repeated_index_path :
    ∃ out, belowPkg.compile withIndexTemplate .typescript [] = .ok out ∧
      ¬ (out.map OutputFile.path).Nodup := by
  obtain ⟨out, hout, hpaths⟩ := compile_withIndexTemplate
  refine ⟨out, hout, ?_⟩
  rw [hpaths]
  decide

/-- There the shared types have a path of their own, and the template for the index has not. -/
theorem nodup_paths_iff_withIndexTemplate :
    withIndexTemplate.Lawful ∧
      ∃ out, belowPkg.compile withIndexTemplate .typescript [] = .ok out ∧
        ∃ types, sharedTypes withIndexTemplate belowPkg.templates .typescript = .ok types ∧
          out.map OutputFile.path = types.map OutputFile.path ++ modulePaths .typescript [] ∧
          (modulePaths .typescript []).Nodup ∧ (types.map OutputFile.path).Nodup ∧
          ((out.map OutputFile.path).Nodup ↔ ∀ t ∈ types, t.path ∉ modulePaths .typescript []) := by
  obtain ⟨out, hout, -⟩ := compile_withIndexTemplate
  exact ⟨lawful_withIndexTemplate, out, hout,
    nodup_paths_iff lawful_withIndexTemplate (.inr hout)⟩

end Compiler

end Promptwright
