import Promptwright.Proofs.Files.Order
import Promptwright.Proofs.Glob.Parts
import Promptwright.Proofs.Prompt.Braces

/-!
# Which files are discovered

The files that the alternatives of a pattern match are put in order and repetitions are left out.
What is left depends on which files there are to find, and on nothing else: not on the order of the
alternatives, nor on that in which a disk lists its names.

## Key results

- `map_parts_arrange`: arranged paths depend on which paths there are only
- `mem_discoverEach_iff`: the files that alternatives match
- `discover_matched`: the files that are discovered, and the prompts in them
-/

namespace Promptwright

namespace FileTree

variable {t t' : FileTree} {p : String}

/-! ## Disks that list their names in another order -/

/-- Disks with the same files and directories, and the same current directory. -/
structure SameAs (t t' : FileTree) : Prop where
  current : t'.current = t.current
  get? : ∀ loc, t'.get? loc = t.get? loc

/-- Paths lead to the same places. -/
theorem SameAs.walk (h : t.SameAs t') (loc : Location) (ss : List String) :
    t'.walk loc ss = t.walk loc ss := by
  have hdir : ∀ loc, t'.hasDir loc = t.hasDir loc := fun loc => by
    rw [hasDir, h.get?]
    rfl
  induction ss generalizing loc with
  | nil => rfl
  | cons s ss ih => rw [FileTree.walk, FileTree.walk, hdir, h.get?, ih, ih, ih]

/-- So do paths that the system looks up. -/
theorem SameAs.resolve (h : t.SameAs t') (p : String) : t'.resolve p = t.resolve p := by
  simp only [FileTree.resolve, start, h.current, h.walk]

/-- So what is a file on one disk is one on the other. -/
theorem SameAs.isFile (h : t.SameAs t') (p : String) : t'.isFile p = t.isFile p := by
  simp only [FileTree.isFile, entry, h.resolve, h.get?]

/-- And the names are the same. -/
theorem SameAs.named (h : t.SameAs t') (hnamed : t.Named) : t'.Named := by
  intro e he s hs
  have hne : e.1 ≠ [] := List.ne_nil_of_mem hs
  have hsome := (isSome_get?_iff hne).mpr (List.mem_map_of_mem he)
  rw [h.get?] at hsome
  obtain ⟨e', he', heq⟩ := List.mem_map.mp ((isSome_get?_iff hne).mp hsome)
  exact hnamed e' he' s (heq ▸ hs)

end FileTree

namespace Prompt

open Promptwright.Path (Before parts partsLe)

variable {files files' : FileTree} {dir pattern pattern' path : String}
  {alternatives found found' out out' ps : List String} {last : Option (List Path.Part)}

/-! ## Paths in order -/

/-- Paths in order, each once. -/
def arrange (found : List String) : List String := dropRepeated none (found.mergeSort Path.le)

/-- Only repetitions are left out. -/
theorem dropRepeated_sublist (last : Option (List Path.Part)) (ps : List String) :
    (dropRepeated last ps).Sublist ps := by
  induction ps generalizing last with
  | nil => exact .slnil
  | cons p ps ih =>
    rw [dropRepeated]
    split
    · exact (ih last).cons p
    · exact (ih _).cons_cons p

/-- Every path stays, if not in its own spelling. -/
theorem exists_mem_dropRepeated {p : String} (hp : p ∈ ps) :
    last = some (parts p) ∨ ∃ q ∈ dropRepeated last ps, parts q = parts p := by
  induction ps generalizing last with
  | nil => cases hp
  | cons p' ps ih =>
    rw [dropRepeated]
    split
    next hlast =>
      obtain rfl | hp := List.mem_cons.mp hp
      · exact .inl hlast
      · exact ih hp
    next =>
      obtain rfl | hp := List.mem_cons.mp hp
      · exact .inr ⟨p, List.mem_cons_self, rfl⟩
      · obtain heq | ⟨q, hq, heq⟩ := @ih (some (parts p')) hp
        · exact .inr ⟨p', List.mem_cons_self, Option.some.inj heq⟩
        · exact .inr ⟨q, List.mem_cons_of_mem _ hq, heq⟩

/-- What is left of sorted paths comes behind what is in front of them, and in order. -/
theorem pairwise_before_dropRepeated (h : ps.Pairwise fun p q => Path.le p q = true)
    (hlast : ∀ a, last = some a → ∀ p ∈ ps, partsLe a (parts p) = true) :
    (∀ a, last = some a → ∀ p ∈ dropRepeated last ps, parts p ≠ a) ∧
      (dropRepeated last ps).Pairwise Before := by
  induction ps generalizing last with
  | nil => exact ⟨fun _ _ _ h => absurd h List.not_mem_nil, .nil⟩
  | cons p ps ih =>
    obtain ⟨hp, hps⟩ := List.pairwise_cons.mp h
    rw [dropRepeated]
    split
    next => exact ih hps fun a ha q hq => hlast a ha q (List.mem_cons_of_mem p hq)
    next hne =>
      have hfront : ∀ a, some (parts p) = some a → ∀ q ∈ ps, partsLe a (parts q) = true := by
        rintro _ ⟨rfl⟩ q hq
        exact hp q hq
      obtain ⟨hbehind, hpairwise⟩ := ih hps hfront
      have hsub := (dropRepeated_sublist (some (parts p)) ps).subset
      refine ⟨fun a ha q hq heq => ?_, List.pairwise_cons.mpr ⟨fun q hq => ?_, hpairwise⟩⟩
      · obtain rfl | hq := List.mem_cons.mp hq
        · exact hne (ha.trans (congrArg some heq.symm))
        · -- what is between two paths with the same parts has these parts too
          have hback : partsLe (parts p) a = true := heq ▸ hp q (hsub hq)
          have hthere := hlast a ha p List.mem_cons_self
          exact hne (ha.trans (congrArg some (Path.isOrder_partsLe.antisymm _ _ hthere hback)))
      · exact ⟨hp q (hsub hq), Ne.symm (hbehind _ rfl q hq)⟩

/-- Arranged paths are in order. -/
theorem pairwise_before_arrange (found : List String) : (arrange found).Pairwise Before :=
  (pairwise_before_dropRepeated (Path.pairwise_le_mergeSort found) (by simp)).2

/-- They are some of the paths. -/
theorem mem_of_mem_arrange (h : path ∈ arrange found) : path ∈ found :=
  List.mem_mergeSort.mp ((dropRepeated_sublist none _).subset h)

/-- There is one for each. -/
theorem exists_mem_arrange (h : path ∈ found) : ∃ q ∈ arrange found, parts q = parts path :=
  (exists_mem_dropRepeated (List.mem_mergeSort.mpr h)).resolve_left (by simp)

/-- Paths in order stay as they are. -/
theorem arrange_eq_self (h : found.Pairwise Before) : arrange found = found := by
  have hall : ∀ (last : Option (List Path.Part)) (ps : List String), ps.Pairwise Before →
      (∀ p ∈ ps, last ≠ some (parts p)) → dropRepeated last ps = ps := by
    intro last ps hps hlast
    induction ps generalizing last with
    | nil => rfl
    | cons p ps ih =>
      obtain ⟨hp, hps⟩ := List.pairwise_cons.mp hps
      have hne := hlast p List.mem_cons_self
      rw [dropRepeated, if_neg hne]
      rw [ih _ hps fun q hq heq => (hp q hq).2 (Option.some.inj heq)]
  rw [arrange, List.mergeSort_of_pairwise (h.imp And.left)]
  exact hall none found h (by simp)

/-- Which paths they are depends on which paths there are only, and not on their order. -/
theorem map_parts_arrange (h : ∀ path, path ∈ found ↔ path ∈ found') :
    (arrange found).map parts = (arrange found').map parts := by
  have hsub : ∀ {found found' : List String}, (∀ path ∈ found, path ∈ found') →
      ∀ a ∈ (arrange found).map parts, a ∈ (arrange found').map parts := by
    intro found found' h a ha
    obtain ⟨p, hp, rfl⟩ := List.mem_map.mp ha
    obtain ⟨q, hq, heq⟩ := exists_mem_arrange (h p (mem_of_mem_arrange hp))
    exact List.mem_map.mpr ⟨q, hq, heq⟩
  exact Path.map_parts_eq_of_before (pairwise_before_arrange found) (pairwise_before_arrange found')
    fun a => ⟨hsub (fun p => (h p).mp) a, hsub (fun p => (h p).mpr) a⟩

/-! ## The files that alternatives match -/

/-- The searches are made one after the other. -/
theorem discoverEach_cons (files : FileTree) (dir p : String) (ps : List String) :
    discoverEach files dir (p :: ps) =
      match Glob.search files (Path.join dir p) with
      | .error e => .error (.pattern p e)
      | .ok paths => do return paths.filter files.isFile ++ (← discoverEach files dir ps) := by
  exact rfl

/-- What is discovered is what the searches find, if all of them are possible. -/
theorem discoverEach_eq_ok (h : discoverEach files dir alternatives = .ok found) :
    (∀ p ∈ alternatives, ∃ paths, Glob.search files (Path.join dir p) = .ok paths) ∧
      ∀ path, path ∈ found ↔ files.isFile path = true ∧ ∃ p ∈ alternatives,
        ∃ paths, Glob.search files (Path.join dir p) = .ok paths ∧ path ∈ paths := by
  induction alternatives generalizing found with
  | nil =>
    cases h
    simp
  | cons p ps ih =>
    -- the files of the first alternative, and then those of the others
    rw [discoverEach_cons] at h
    split at h
    next => cases h
    next paths hpaths =>
      obtain ⟨rest, hrest, h⟩ := bind_eq_ok h
      cases h
      obtain ⟨hall, hmem⟩ := ih hrest
      refine ⟨List.forall_mem_cons.mpr ⟨⟨paths, hpaths⟩, hall⟩, fun path => ?_⟩
      rw [List.mem_append, List.mem_filter, hmem, List.exists_mem_cons_iff, hpaths, and_comm,
        ← and_or_left]
      simp

/-- If all of them are possible, there is a result. -/
theorem exists_discoverEach_eq_ok
    (h : ∀ p ∈ alternatives, ∃ paths, Glob.search files (Path.join dir p) = .ok paths) :
    ∃ found, discoverEach files dir alternatives = .ok found := by
  induction alternatives with
  | nil => exact ⟨[], rfl⟩
  | cons p ps ih =>
    obtain ⟨⟨paths, hpaths⟩, hps⟩ := List.forall_mem_cons.mp h
    obtain ⟨rest, hrest⟩ := ih hps
    rw [discoverEach_cons, hpaths, hrest]
    exact ⟨_, rfl⟩

/-- A file that one of the alternatives of a pattern matches below a directory. -/
structure Matched (files : FileTree) (dir pattern path : String) : Prop where
  isFile : files.isFile path = true
  matched : ∃ p ∈ expandBraces pattern, Glob.MatchesBelow dir p path

/-- The searches find the files that the alternatives match. -/
theorem mem_discoverEach_iff (hnamed : files.Named) (hdir : Glob.IsPlain dir)
    (hrelative : ∀ p ∈ expandBraces pattern, Path.isAbsolute p = false)
    (h : discoverEach files dir (expandBraces pattern) = .ok found) :
    path ∈ found ↔ Matched files dir pattern path := by
  obtain ⟨hall, hmem⟩ := discoverEach_eq_ok h
  rw [hmem]
  constructor
  · rintro ⟨hfile, p, hp, paths, hpaths, hpath⟩
    exact ⟨hfile, p, hp,
      (Glob.mem_search_join_iff hnamed hdir (hrelative p hp) hpaths hfile).mp hpath⟩
  · rintro ⟨hfile, p, hp, hmatch⟩
    obtain ⟨paths, hpaths⟩ := hall p hp
    exact ⟨hfile, p, hp, paths, hpaths,
      (Glob.mem_search_join_iff hnamed hdir (hrelative p hp) hpaths hfile).mpr hmatch⟩

/-! ## Discovery -/

/-- Whatever is discovered is found by the searches and arranged. -/
theorem discover_eq_ok (h : discover files dir pattern = .ok out) :
    ∃ found, discoverEach files dir (expandBraces pattern) = .ok found ∧ out = arrange found := by
  obtain ⟨found, hfound, h⟩ := bind_eq_ok h
  cases h
  exact ⟨found, hfound, rfl⟩

/-- Files in order that a pattern without braces matches are what is discovered. -/
theorem discover_of_search (hpattern : expandBraces pattern = [pattern])
    (h : Glob.search files (Path.join dir pattern) = .ok found)
    (hfiles : ∀ path ∈ found, files.isFile path = true) (hsorted : found.Pairwise Before) :
    discover files dir pattern = .ok found := by
  have heach : discoverEach files dir [pattern] = .ok found := by
    rw [discoverEach_cons, h]
    simp only [List.filter_eq_self.mpr hfiles]
    exact congrArg Except.ok (List.append_nil found)
  rw [discover, hpattern, heach]
  exact congrArg Except.ok (arrange_eq_self hsorted)

/-- Files are discovered on any disk, and for any pattern with the same alternatives. -/
theorem exists_discover_eq_ok (h : discover files dir pattern = .ok out)
    (hsub : expandBraces pattern' ⊆ expandBraces pattern) (files' : FileTree) :
    ∃ out', discover files' dir pattern' = .ok out' := by
  obtain ⟨found, hfound, -⟩ := discover_eq_ok h
  obtain ⟨found', hfound'⟩ := exists_discoverEach_eq_ok fun p hp => by
    obtain ⟨paths, hpaths⟩ := (discoverEach_eq_ok hfound).1 p (hsub hp)
    exact Glob.exists_search_eq_ok hpaths files'
  exact ⟨arrange found', by rw [discover, hfound']; rfl⟩

/-- Where the same files are matched, the same are discovered. -/
theorem map_parts_discover (hnamed : files.Named) (hnamed' : files'.Named) (hdir : Glob.IsPlain dir)
    (hrelative : ∀ p ∈ expandBraces pattern, Path.isAbsolute p = false)
    (hrelative' : ∀ p ∈ expandBraces pattern', Path.isAbsolute p = false)
    (hmatched : ∀ path, Matched files dir pattern path ↔ Matched files' dir pattern' path)
    (h : discover files dir pattern = .ok out) (h' : discover files' dir pattern' = .ok out') :
    out.map parts = out'.map parts := by
  obtain ⟨found, hfound, rfl⟩ := discover_eq_ok h
  obtain ⟨found', hfound', rfl⟩ := discover_eq_ok h'
  refine map_parts_arrange fun path => ?_
  rw [mem_discoverEach_iff hnamed hdir hrelative hfound, hmatched,
    mem_discoverEach_iff hnamed' hdir hrelative' hfound']

/-- A prompt that is loaded from a file keeps the path of the file. -/
theorem path_of_loadFile {file : PromptFile} (h : loadFile files path = .ok file) :
    file.path = path := by
  rw [loadFile] at h
  split at h
  · cases h
  · split at h
    · cases h
    · obtain ⟨prompt, -, rfl⟩ := map_eq_ok h
      rfl

/-- What the loading of files one after the other comes to. -/
inductive LoadsEach (files : FileTree) (paths : List String) :
    Except LoadError (List PromptFile) → Prop
  /-- There is a prompt in every file. -/
  | all {prompts : List PromptFile}
      (h : List.Forall₂ (fun path prompt => loadFile files path = .ok prompt) paths prompts)
      (hpaths : prompts.map PromptFile.path = paths) : LoadsEach files paths (.ok prompts)
  /-- The error is that of the first file without a prompt. -/
  | failed {before after : List String} {path : String} {e : LoadError}
      (hpaths : paths = before ++ path :: after)
      (hbefore : ∀ q ∈ before, ∃ prompt, loadFile files q = .ok prompt)
      (he : loadFile files path = .error e) : LoadsEach files paths (.error e)

/-- The files that are discovered are loaded one after the other. -/
theorem loadsEach_of_discover (h : discover files dir pattern = .ok out) :
    LoadsEach files out (loadAll files dir pattern) := by
  have heq : loadAll files dir pattern = out.mapM (loadFile files) := by
    rw [loadAll, h]
    rfl
  rw [heq]
  cases hload : out.mapM (loadFile files) with
  | ok prompts =>
    have hall := mapM_eq_ok hload
    refine .all hall ?_
    clear hload heq h
    induction hall with
    | nil => rfl
    | cons hp _ ih => rw [List.map_cons, ih, path_of_loadFile hp]
  | error e =>
    obtain ⟨before, path, after, hout, hbefore, he⟩ := exists_first_of_mapM_eq_error hload
    exact .failed hout hbefore he

/-- What is to be said of the files that are discovered below a directory. -/
structure Discovered (files : FileTree) (dir pattern : String) (out : List String) : Prop where
  /-- They are in the order of their paths, each once. -/
  sorted : out.Pairwise Before
  /-- An alternative of the pattern matches each of them. -/
  matched : ∀ path ∈ out, Matched files dir pattern path
  /-- Every file that is matched is among them. -/
  complete : ∀ path, Matched files dir pattern path → ∃ q ∈ out, parts q = parts path
  /-- In whatever order the files are found, and how often, they come out in this one. -/
  enumerated : ∀ found : List String, (∀ path, path ∈ found ↔ Matched files dir pattern path) →
    (arrange found).map parts = out.map parts
  /-- The choices in braces may stand in any order. -/
  reordered : ∀ pattern' : String, Braces.Reordered pattern.toList pattern'.toList →
    ∃ out', discover files dir pattern' = .ok out' ∧ out'.map parts = out.map parts
  /-- So may the entries of the disk. -/
  relisted : ∀ files', files.SameAs files' →
    ∃ out', discover files' dir pattern = .ok out' ∧ out'.map parts = out.map parts
  /-- The prompts in them are loaded in this order. -/
  loaded : LoadsEach files out (loadAll files dir pattern)

/-- The files that are discovered are exactly those that an alternative of the pattern matches below
the directory, each once and in the order of their paths, whatever order they are found in. -/
theorem discover_matched (hnamed : files.Named) (hdir : Glob.IsPlain dir)
    (hrelative : ∀ p ∈ expandBraces pattern, Path.isAbsolute p = false)
    (hout : discover files dir pattern = .ok out) : Discovered files dir pattern out := by
  have hloaded := loadsEach_of_discover hout
  obtain ⟨found, hfound, rfl⟩ := discover_eq_ok hout
  -- all that follows is about which files match, and no more about how they were found
  have hmem : ∀ path, path ∈ found ↔ Matched files dir pattern path := fun path =>
    mem_discoverEach_iff hnamed hdir hrelative hfound
  constructor
  case sorted => exact pairwise_before_arrange found
  case matched => exact fun path hpath => (hmem path).mp (mem_of_mem_arrange hpath)
  case complete => exact fun path hpath => exists_mem_arrange ((hmem path).mpr hpath)
  case enumerated =>
    exact fun found' hfound' => map_parts_arrange fun path => (hfound' path).trans (hmem path).symm
  case reordered =>
    intro pattern' hreordered
    have hperm := hreordered.perm_expandBraces
    obtain ⟨out', hout'⟩ := exists_discover_eq_ok hout hperm.symm.subset files
    have hrelative' := fun p hp => hrelative p (hperm.symm.subset hp)
    have hmatched : ∀ path, Matched files dir pattern' path ↔ Matched files dir pattern path := by
      intro path
      constructor
      · rintro ⟨hfile, p, hp, hmatch⟩
        exact ⟨hfile, p, hperm.symm.subset hp, hmatch⟩
      · rintro ⟨hfile, p, hp, hmatch⟩
        exact ⟨hfile, p, hperm.subset hp, hmatch⟩
    exact ⟨out', hout',
      map_parts_discover hnamed hnamed hdir hrelative' hrelative hmatched hout' hout⟩
  case relisted =>
    intro files' hsame
    obtain ⟨out', hout'⟩ := exists_discover_eq_ok hout (List.Subset.refl _) files'
    have hmatched : ∀ path, Matched files' dir pattern path ↔ Matched files dir pattern path := by
      intro path
      constructor
      · rintro ⟨hfile, hmatch⟩
        exact ⟨hsame.isFile path ▸ hfile, hmatch⟩
      · rintro ⟨hfile, hmatch⟩
        exact ⟨(hsame.isFile path).trans hfile, hmatch⟩
    exact ⟨out', hout', map_parts_discover (hsame.named hnamed) hnamed hdir hrelative hrelative
      hmatched hout' hout⟩
  case loaded => exact hloaded

/-- A directory with two documents and a directory, and a document beside it. -/
def notes : FileTree where
  entries := [
    (["d"], .directory), (["d", "b.yaml"], .file .empty), (["d", "a.yaml"], .file .empty),
    (["d", "c.yaml"], .directory), (["q.yaml"], .file .empty)]
  current := []

/-- Alternatives that overlap, one of which leads to a directory.  Every document is discovered
once, also with the alternatives in another order. -/
theorem discover_matched_notes :
    notes.Named ∧ Glob.IsPlain "d" ∧
      (∀ p ∈ expandBraces "\x7ba,./a,b,c\x7d.yaml", Path.isAbsolute p = false) ∧
      discover notes "d" "\x7ba,./a,b,c\x7d.yaml" = .ok ["d/a.yaml", "d/b.yaml"] ∧
      Discovered notes "d" "\x7ba,./a,b,c\x7d.yaml" ["d/a.yaml", "d/b.yaml"] ∧
      ∃ out, discover notes "d" "\x7bc,b,./a,a\x7d.yaml" = .ok out ∧
        out.map parts = ["d/a.yaml", "d/b.yaml"].map parts := by
  have hnamed : notes.Named := by decide
  have hdir : Glob.IsPlain "d" := by decide
  have hrelative : ∀ p ∈ expandBraces "\x7ba,./a,b,c\x7d.yaml", Path.isAbsolute p = false := by
    decide
  have hfound : discoverEach notes "d" (expandBraces "\x7ba,./a,b,c\x7d.yaml") =
      .ok ["d/a.yaml", "d/./a.yaml", "d/b.yaml"] := rfl
  have hsorted : ["d/a.yaml", "d/./a.yaml", "d/b.yaml"].Pairwise fun p q => Path.le p q = true := by
    decide
  have hout : discover notes "d" "\x7ba,./a,b,c\x7d.yaml" = .ok ["d/a.yaml", "d/b.yaml"] := by
    rw [discover, hfound, bind_of_eq_ok rfl, List.mergeSort_of_pairwise hsorted]
    rfl
  have hdiscovered := discover_matched hnamed hdir hrelative hout
  refine ⟨hnamed, hdir, hrelative, hout, hdiscovered, hdiscovered.reordered _ ?_⟩
  have hgroup : Braces.SameGroup ([['a'], ['.', '/', 'a'], ['b'], ['c']], ".yaml".toList)
      ([['c'], ['b'], ['.', '/', 'a'], ['a']], ".yaml".toList) :=
    ⟨by decide, rfl, by decide, by decide, by decide⟩
  exact Braces.reordered_flat List.not_mem_nil (.cons hgroup .nil)

end Prompt

end Promptwright
