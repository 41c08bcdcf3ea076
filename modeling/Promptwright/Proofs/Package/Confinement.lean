import Promptwright.Proofs.Package.Paths
import Promptwright.Proofs.Package.Write
import Promptwright.Proofs.Text.Labels

/-!
# Packages stay in their directory

Whatever prompts are called, the path of a module is a single name: of what people write, only
letters and digits come into it.  The paths of shared types are made of the names of files that are
there already.  So none of them leads out of the directory that a package is written to.

## Key results

- `exists_slug`: the form of the path of a module
- `isName_of_mem_modulePaths`, `inward_of_sharedTypes`: the paths of a package
- `Compiler.stays_below`: what changes when a package is written
-/

namespace Promptwright

/-! ## Modules and the index -/

section Modules

variable {d : Dialect}

/-- Whether a text is made of small letters, digits and underscores. -/
def IsSlug (s : String) : Prop :=
  ∀ c ∈ s.toList, c.isLower = true ∨ c.isDigit = true ∨ c = '_'

/-- The path of a module: a slug and the version, and behind a dot the extension. -/
theorem exists_slug (d : Dialect) (p : Prompt) : ∃ slug, IsSlug slug ∧
    d.fileName (ModuleContent.stemOf p) =
      slug ++ "_v" ++ toString p.version ++ "." ++ d.extension :=
  ⟨_, fun _ => Identifiers.mem_fileSlug, rfl⟩

/-- A slash is no character of slugs. -/
theorem IsSlug.slash_not_mem {s : String} (h : IsSlug s) : '/' ∉ s.toList := by
  intro hmem
  exact absurd (h '/' hmem) (by decide)

variable (hd : '/' ∉ d.extension.toList)

include hd

/-- The path of a module is a name. -/
theorem isName_fileName_stemOf (p : Prompt) :
    Path.IsName (d.fileName (ModuleContent.stemOf p)) := by
  obtain ⟨slug, hslug, hpath⟩ := exists_slug d p
  have hversion : '/' ∉ (toString p.version).toList := by
    rw [Nat.toString_eq_ofList_toDigits, String.toList_ofList]
    intro hmem
    exact absurd (Nat.isDigit_of_mem_toDigits (by decide) (by decide) hmem) (by decide)
  have hfixed : '/' ∉ "_v".toList ∧ '/' ∉ ".".toList := by decide
  refine Path.isName_of_mem (c := '_') ?_ (by decide) ?_
  · rw [hpath]
    simp
  · simp only [hpath, String.toList_append, List.mem_append, not_or]
    exact ⟨⟨⟨⟨hslug.slash_not_mem, hfixed.1⟩, hversion⟩, hfixed.2⟩, hd⟩

/-- The path of the index is a name. -/
theorem isName_fileName_index : Path.IsName (d.fileName "index") := by
  have hfixed : '/' ∉ "index".toList ∧ '/' ∉ ".".toList := by decide
  refine Path.isName_of_mem (c := 'x') ?_ (by decide) ?_
  · simp [Dialect.fileName]
  · simp only [Dialect.fileName, String.toList_append, List.mem_append, not_or]
    exact ⟨hfixed, hd⟩

/-- The paths of modules and of their index are names. -/
theorem isName_of_mem_modulePaths {ps : List Prompt} {path : String}
    (h : path ∈ modulePaths d ps) : Path.IsName path := by
  obtain h | h := List.mem_append.mp h
  · obtain ⟨p, -, rfl⟩ := List.mem_map.mp h
    exact isName_fileName_stemOf hd p
  · rw [List.mem_singleton.mp h]
    exact isName_fileName_index hd

end Modules

/-! ## Shared types -/

section Shared

variable {files : FileTree} {templates : Templates} {d : Dialect}

/-- Templates have paths that stay inside. -/
theorem inward_of_read (hfiles : files.Named) {texts : List (String × String)}
    (h : templates.read files = .ok texts) : ∀ path ∈ texts.map Prod.fst, Path.Inward path := by
  cases templates with
  | builtin =>
    cases h
    have hname : Path.IsName "types.ts" := ⟨by decide, by decide⟩
    exact List.forall_mem_singleton.mpr hname.inward
  | below root =>
    obtain ⟨found, hfound, htexts⟩ := read_below_eq_ok h
    rw [map_fst_of_readTemplate htexts]
    refine List.forall_mem_map.mpr fun names hnames => ?_
    obtain ⟨hsome, hname⟩ := (reaches_of_mem hfound (List.mem_mergeSort.mp hnames)).forall_names hfiles
    exact Path.inward_intercalate hsome hname

/-- Files with shared types have paths that stay inside. -/
theorem inward_of_sharedTypes (hfiles : files.Named) {types : List OutputFile}
    (h : sharedTypes files templates d = .ok types) : ∀ t ∈ types, Path.Inward t.path := by
  rw [sharedTypes] at h
  split at h
  next =>
    obtain ⟨texts, htexts, h⟩ := bind_eq_ok h
    cases h
    intro t ht
    obtain ⟨text, htext, rfl⟩ := List.mem_map.mp ht
    exact inward_of_read hfiles htexts text.1 (List.mem_map_of_mem htext)
  next =>
    cases h
    exact List.forall_mem_nil _

end Shared

/-! ## The package -/

namespace Compiler

variable {c : Compiler} {files : FileTree} {d : Dialect} {ps : List Prompt} {out : List OutputFile}

/-- However prompts are called and wherever templates are: the path of a module is a name made of a
slug, the version and the extension, the path of the index is a name too, and those of shared types
stay inside.  So wherever the package is written, everything that changes is below that directory,
apart from directories that were missing on the way to it. -/
theorem stays_below (hfiles : files.Named) (hd : '/' ∉ d.extension.toList)
    (h : c.assemble files d ps = .ok out ∨ c.compile files d ps = .ok out) :
    (∃ types, sharedTypes files c.templates d = .ok types ∧
      out.map OutputFile.path = types.map OutputFile.path ++ modulePaths d ps ∧
      ∀ t ∈ types, Path.isAbsolute t.path = false ∧ .up ∉ Path.parts t.path) ∧
    (∀ p ∈ ps, ∃ slug, IsSlug slug ∧ d.fileName (ModuleContent.stemOf p) =
      slug ++ "_v" ++ toString p.version ++ "." ++ d.extension) ∧
    (∀ path ∈ modulePaths d ps, Path.parts path = [.name path]) ∧
    ∀ (t : FileTree) (dir : String) (loc : Location),
      (OutputFile.writeAll t dir out).1.get? loc ≠ t.get? loc →
        (t.get? loc = none ∧ (OutputFile.writeAll t dir out).1.get? loc = some .directory ∧
          (OutputFile.writeAll t dir out).1.Passes dir loc) ∨
        (OutputFile.writeAll t dir out).1.Below dir loc := by
  -- formatting leaves paths as they are, so it is enough to look at what was assembled
  have hpaths : ∃ types, sharedTypes files c.templates d = .ok types ∧
      out.map OutputFile.path = types.map OutputFile.path ++ modulePaths d ps := by
    obtain h | h := h
    · obtain ⟨types, htypes, -, hout⟩ := map_path_of_assemble h
      exact ⟨types, htypes, hout⟩
    · obtain ⟨assembled, hassembled, hout⟩ := map_path_of_compile h
      obtain ⟨types, htypes, -, hassembled⟩ := map_path_of_assemble hassembled
      exact ⟨types, htypes, hout.trans hassembled⟩
  obtain ⟨types, htypes, hout⟩ := hpaths
  have hshared := inward_of_sharedTypes hfiles htypes
  -- whatever the file is, its path goes into the directory and does not leave it
  have hinward : ∀ f ∈ out, Path.Inward f.path := by
    intro f hf
    have hmem : f.path ∈ types.map OutputFile.path ++ modulePaths d ps :=
      hout ▸ List.mem_map_of_mem hf
    obtain hmem | hmem := List.mem_append.mp hmem
    · obtain ⟨t, ht, hpath⟩ := List.mem_map.mp hmem
      exact hpath ▸ hshared t ht
    · exact (isName_of_mem_modulePaths hd hmem).inward
  refine ⟨⟨types, htypes, hout, fun t ht => ⟨(hshared t ht).relative, (hshared t ht).inside⟩⟩,
    fun p _ => exists_slug d p, fun path hpath => (isName_of_mem_modulePaths hd hpath).parts_eq,
    fun t dir loc => OutputFile.below_of_writeAll hinward⟩

/-- A prompt that is called like a way to somewhere else. -/
def climbing : Prompt where
  name := "../../C:\\etc/pass wd\x00"
  system := ""

example : Dialect.typescript.fileName (ModuleContent.stemOf climbing) = "cetcpass_wd_v1.ts" := by
  decide +kernel

/-- The names of the disk with templates are names. -/
theorem named_withIndexTemplate : withIndexTemplate.Named := by
  intro e he name hname
  refine ⟨?_, lawful_withIndexTemplate.names e he name hname⟩
  revert name
  revert e
  decide

/-- Its module and the templates beside it are written below the directory that they are meant for. -/
theorem stays_below_climbing :
    withIndexTemplate.Named ∧ '/' ∉ Dialect.typescript.extension.toList ∧
      ∃ out, belowPkg.assemble withIndexTemplate .typescript [climbing] = .ok out ∧
        ∀ (t : FileTree) (dir : String) (loc : Location),
          (OutputFile.writeAll t dir out).1.get? loc ≠ t.get? loc →
            (t.get? loc = none ∧ (OutputFile.writeAll t dir out).1.get? loc = some .directory ∧
              (OutputFile.writeAll t dir out).1.Passes dir loc) ∨
            (OutputFile.writeAll t dir out).1.Below dir loc := by
  have hout : ∃ out, belowPkg.assemble withIndexTemplate .typescript [climbing] = .ok out := by
    rw [assemble, belowPkg, sharedTypes_withIndexTemplate]
    exact ⟨_, rfl⟩
  obtain ⟨out, hout⟩ := hout
  have hslash : '/' ∉ Dialect.typescript.extension.toList := by decide
  exact ⟨named_withIndexTemplate, hslash, out, hout,
    (stays_below named_withIndexTemplate hslash (.inl hout)).2.2.2⟩

end Compiler

end Promptwright
