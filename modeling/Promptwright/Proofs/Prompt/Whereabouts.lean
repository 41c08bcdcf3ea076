import Promptwright.Proofs.Package.Write
import Promptwright.Proofs.Prompt.Discovery

/-!
# Where discovered files are

A pattern leads from a directory to places below it, unless one of its parts can stand for two dots.
So what is discovered is below the directory, if the path of the directory means itself.  It is read
as a part of the pattern, though, and a path with wildcards leads to other directories as well.

## Key results

- `exists_names_of_spells`: a pattern whose parts never lead upwards
- `leadsTo_of_spells`: a path that is taken for a pattern
- `discover_below`: the files and the prompts are below the directory
- `discovered_elsewhere`: a directory whose name has a wildcard, and a pattern that matches two dots
-/

namespace Promptwright

namespace Glob

variable {t : FileTree} {q : Pattern} {ps : List Pattern} {d dir p path s : String}
  {loc base : Location}

/-! ## Parts that lead upwards -/

/-- A part that is two dots matches them. -/
theorem mem_dotNames_of_literal (h : q.literal? = some "..".toList) : ".." ∈ dotNames q := by
  rw [literal?_eq_some_iff.mp h]
  decide

/-- Where a part leads that is not two dots. -/
theorem exists_names_of_step {loc' : Location} (h : t.Step loc s loc') (hs : s ≠ "..") :
    ∃ names, loc' = loc ++ names :=
  FileTree.exists_names_of_walk (by simpa using Ne.symm hs) h.walk

/-- A pattern no part of which matches two dots leads to places below a directory. -/
theorem exists_names_of_spells (hup : ∀ q ∈ ps, ".." ∉ dotNames q) (h : Spells ps d path)
    (hpath : t.LeadsTo path loc) : ∃ mid names, t.LeadsTo d mid ∧ loc = mid ++ names := by
  -- one more name in front that is not two dots
  have hstep : ∀ {d s d' : String}, (d' = child d s ∨ d' = Path.join d s) → '/' ∉ s.toList →
      s ≠ ".." → (∃ mid names, t.LeadsTo d' mid ∧ loc = mid ++ names) →
        ∃ mid names, t.LeadsTo d mid ∧ loc = mid ++ names := by
    rintro d s d' hd' hslash hs ⟨next, names, hnext, rfl⟩
    obtain ⟨mid, hmid, hstep⟩ := exists_step_of_leadsTo hd' hslash hnext
    obtain ⟨names', rfl⟩ := exists_names_of_step hstep hs
    exact ⟨mid, names' ++ names, hmid, List.append_assoc _ _ _⟩
  induction h with
  | done => exact ⟨loc, [], hpath, (List.append_nil loc).symm⟩
  | dots hp hs _ _ ih =>
    obtain ⟨hq, hup⟩ := List.forall_mem_cons.mp hup
    refine hstep (.inl rfl) (slash_not_mem_of_dots hs) ?_ (ih hup hpath)
    rintro rfl
    exact hq (mem_dotNames_of_literal hp)
  | literal _ hs hslash _ _ ih =>
    exact hstep (.inl rfl) hslash (not_or.mp hs).2 (ih (List.forall_mem_cons.mp hup).2 hpath)
  | wildDots _ _ hs _ _ ih =>
    obtain ⟨hq, hup⟩ := List.forall_mem_cons.mp hup
    refine hstep (.inr rfl) (slash_not_mem_of_dots (eq_of_mem_dotNames hs).symm) ?_ (ih hup hpath)
    rintro rfl
    exact hq hs
  | name _ _ hs _ _ _ ih =>
    exact hstep (.inl rfl) hs.slash hs.ne.2.2 (ih (List.forall_mem_cons.mp hup).2 hpath)
  | anyDepth _ hd _ _ ih =>
    have hup := (List.forall_mem_cons.mp (List.forall_mem_cons.mp hup).2).2
    obtain ⟨next, names, hnext, rfl⟩ := ih hup hpath
    obtain ⟨mid, names', hmid, -, rfl, -⟩ := hd.exists_leadsTo hnext
    exact ⟨mid, names' ++ names, hmid, List.append_assoc _ _ _⟩

/-! ## Paths that are taken for patterns -/

/-- Parts that stand for themselves lead where they lead as names. -/
theorem exists_walk_of_spells {ss : List String} (h : Spells (ss.map literally) d path)
    (hpath : t.LeadsTo path loc) : ∃ mid, t.LeadsTo d mid ∧ t.walk mid ss = .ok loc := by
  induction ss generalizing d with
  | nil =>
    rw [List.map_nil, spells_nil_iff] at h
    exact ⟨loc, h ▸ hpath, rfl⟩
  | cons s ss ih =>
    obtain ⟨hs, h⟩ := spells_literally_iff.mp h
    obtain ⟨next, hnext, hwalk⟩ := ih h
    have hslash : '/' ∉ s.toList := by
      split at hs
      next hdots => exact slash_not_mem_of_dots hdots
      next => exact hs.1
    obtain ⟨mid, hmid, hstep⟩ := (FileTree.leadsTo_child_iff hslash).mp hnext
    exact ⟨mid, hmid, FileTree.walk_cons_iff.mpr ⟨next, hstep, hwalk⟩⟩

/-- Segments are parts, except for an empty one at the end. -/
theorem walk_of_walk_trim {ss : List String} (h : t.walk base (trim ss) = .ok loc)
    (hloc : t.hasDir loc = true) : t.walk base ss = .ok loc := by
  rw [trim] at h
  split at h
  next hlast =>
    obtain ⟨ss', rfl⟩ := List.getLast?_eq_some_iff.mp hlast
    rw [List.dropLast_concat] at h
    rw [FileTree.walk_append, h]
    exact FileTree.walk_blank hloc
  next => exact h

/-- What the parts of a path spell leads where the path does. -/
theorem leadsTo_of_spells
    (h : Spells ((partsOf dir).map literally) (if Path.isAbsolute dir then "/" else ".") path)
    (hpath : t.LeadsTo path loc) (hloc : t.hasDir loc = true) : t.LeadsTo dir loc := by
  obtain ⟨start, hstart, hwalk⟩ := exists_walk_of_spells h hpath
  rw [partsOf_eq] at hwalk
  have hbody := walk_of_walk_trim hwalk hloc
  rw [body] at hbody
  rw [FileTree.LeadsTo, FileTree.start]
  split at hstart
  next habsolute =>
    -- in front of the first slash there is an empty segment, which stays at the root
    cases hstart
    obtain ⟨s, ss, hss⟩ := (Path.isAbsolute_iff dir).mp habsolute
    rw [if_pos habsolute, hss] at hbody
    rw [if_pos habsolute, hss]
    exact FileTree.walk_cons_iff.mpr ⟨[], .stay rfl (.inl rfl), hbody⟩
  next hrelative =>
    have hcurrent : start = t.current := FileTree.eq_of_walk_blank (by decide) hstart
    rw [if_neg hrelative] at hbody ⊢
    rwa [hcurrent] at hbody

/-- A pattern none of whose parts matches two dots. -/
def NeverUp (p : String) : Prop :=
  ∀ s ∈ partsOf p, ∀ q, Pattern.parse s = .ok q → ".." ∉ dotNames q

instance (p : String) : Decidable (NeverUp p) :=
  decidable_of_iff (∀ s ∈ partsOf p, ∀ q ∈ (Pattern.parse s).toOption, ".." ∉ dotNames q) <| by
    refine forall₂_congr fun s _ => forall_congr' fun q => ?_
    cases Pattern.parse s <;> simp [Except.toOption]

/-- What such a pattern matches below a directory is below it. -/
theorem below_of_matchesBelow (hup : NeverUp p) (h : MatchesBelow dir p path)
    (hfile : t.isFile path = true) : ∃ loc, t.resolve path = .ok loc ∧ t.Below dir loc := by
  obtain ⟨loc, bytes, hresolve, hget⟩ := FileTree.isFile_iff.mp hfile
  obtain ⟨c, base, ps, hc, hne, hbase, hps, hspells⟩ := h
  have hpath := (FileTree.resolve_eq_ok_iff.mp hresolve).2
  have hupParts : ∀ q ∈ collapse ps, ".." ∉ dotNames q := by
    intro q hq
    obtain ⟨s, hs, hparse⟩ := exists_of_mem_right (mapM_eq_ok hps) (collapse_subset ps hq)
    exact hup s hs q hparse
  obtain ⟨mid, names, hmid, rfl⟩ := exists_names_of_spells hupParts hspells hpath
  obtain ⟨_, hmid', hdir⟩ := exists_leadsTo_of_spells hspells hpath
  cases hmid.symm.trans hmid'
  have hmidDir := hdir (collapse_ne_nil (ne_nil_of_mapM_parse hc hne hps))
  refine ⟨_, hresolve, mid, names, leadsTo_of_spells hbase hmid hmidDir, ?_, rfl⟩
  -- a file is no directory
  rintro rfl
  rw [List.append_nil] at hget
  cases hget.symm.trans (FileTree.hasDir_iff.mp hmidDir)

end Glob

namespace Prompt

open Promptwright.Path (parts)

variable {files : FileTree} {dir pattern : String}

/-! ## Discovery -/

/-- What is discovered for a pattern that never leads upwards is below the directory, if no
character of its path has a meaning in patterns.  So are the files of the prompts that are loaded. -/
theorem discover_below (hnamed : files.Named) (hdir : Glob.IsPlain dir)
    (hrelative : ∀ p ∈ expandBraces pattern, Path.isAbsolute p = false)
    (hup : ∀ p ∈ expandBraces pattern, Glob.NeverUp p) :
    (∀ out, discover files dir pattern = .ok out →
      ∀ path ∈ out, ∃ loc, files.resolve path = .ok loc ∧ files.Below dir loc) ∧
    ∀ prompts, loadAll files dir pattern = .ok prompts →
      ∀ file ∈ prompts, loadFile files file.path = .ok file ∧
        ∃ loc, files.resolve file.path = .ok loc ∧ files.Below dir loc := by
  -- a path that is discovered is matched below the directory, and so leads there
  have hbelow : ∀ out, discover files dir pattern = .ok out →
      ∀ path ∈ out, ∃ loc, files.resolve path = .ok loc ∧ files.Below dir loc := by
    intro out hout path hpath
    obtain ⟨found, hfound, rfl⟩ := discover_eq_ok hout
    obtain ⟨hfile, p, hp, hmatch⟩ :=
      (mem_discoverEach_iff hnamed hdir hrelative hfound).mp (mem_of_mem_arrange hpath)
    exact Glob.below_of_matchesBelow (hup p hp) hmatch hfile
  refine ⟨hbelow, fun prompts hprompts file hfile => ?_⟩
  obtain ⟨out, hout, hload⟩ := bind_eq_ok hprompts
  obtain ⟨path, hpath, hread⟩ := exists_of_mem_right (mapM_eq_ok hload) hfile
  rw [path_of_loadFile hread]
  exact ⟨hread, hbelow out hout path hpath⟩

-- the pattern for prompt documents never leads upwards
example : ∀ p ∈ expandBraces defaultPattern, Path.isAbsolute p = false ∧ Glob.NeverUp p := by
  decide

/-- A document in a directory is discovered, and is below the directory. -/
theorem discover_below_notes :
    notes.Named ∧ Glob.IsPlain "d" ∧
      (∀ p ∈ expandBraces "b.yaml", Path.isAbsolute p = false) ∧
      (∀ p ∈ expandBraces "b.yaml", Glob.NeverUp p) ∧
      discover notes "d" "b.yaml" = .ok ["d/b.yaml"] ∧
      ∃ loc, notes.resolve "d/b.yaml" = .ok loc ∧ notes.Below "d" loc := by
  have hnamed : notes.Named := by decide
  have hdir : Glob.IsPlain "d" := by decide
  have hrelative : ∀ p ∈ expandBraces "b.yaml", Path.isAbsolute p = false := by decide
  have hup : ∀ p ∈ expandBraces "b.yaml", Glob.NeverUp p := by decide
  have hparts : (Glob.partsOf "d/b.yaml").mapM Glob.Pattern.parse =
      .ok [Glob.literally "d", Glob.literally "b.yaml"] := rfl
  have hsearch : Glob.search notes "d/b.yaml" = .ok ["d/b.yaml"] := by
    rw [Glob.search_of_parse rfl hparts (by simp) (by decide)]
    rfl
  have hout : discover notes "d" "b.yaml" = .ok ["d/b.yaml"] :=
    discover_of_search rfl hsearch (by decide) (by decide)
  exact ⟨hnamed, hdir, hrelative, hup, hout,
    (discover_below hnamed hdir hrelative hup).1 _ hout _ (List.mem_singleton_self _)⟩

/-- A path that is discovered for a directory and a pattern that does not lead upwards, and that
leads to a place which is not below the directory. -/
structure Escapes (files : FileTree) (dir pattern path : String) : Prop where
  named : files.Named
  isDir : files.isDir dir = true
  relative : ∀ p ∈ expandBraces pattern, Path.isAbsolute p = false
  inward : ∀ p ∈ expandBraces pattern, .up ∉ parts p
  discovered : ∃ out, discover files dir pattern = .ok out ∧ path ∈ out
  elsewhere : ∃ loc, files.resolve path = .ok loc ∧ ¬ files.Below dir loc

/-- A directory whose name has a wildcard, and one beside it that this name matches. -/
def crowded : FileTree where
  entries := [
    (["a*"], .directory), (["a*", "p.yaml"], .file .empty),
    (["ab"], .directory), (["ab", "p.yaml"], .file .empty)]
  current := []

/-- A directory with a document, and another one beside it. -/
def nested : FileTree where
  entries := [(["d"], .directory), (["d", "a.yaml"], .file .empty), (["q.yaml"], .file .empty)]
  current := []

/-- For a directory called `a*`, the document in the one beside it is discovered too. -/
theorem discover_crowded : discover crowded "a*" "p.yaml" = .ok ["a*/p.yaml", "ab/p.yaml"] := by
  have hparts : (Glob.partsOf "a*/p.yaml").mapM Glob.Pattern.parse =
      .ok [[.char 'a', .anyText], Glob.literally "p.yaml"] := rfl
  have hnames : crowded.children [] = ["a*", "ab"] := List.mergeSort_of_pairwise (by decide)
  have hhere : crowded.resolve "." = .ok [] := rfl
  have hchildren : Glob.children crowded "." = ["a*", "ab"] := by
    rw [Glob.children_eq hhere, hnames]
    rfl
  have hsearch : Glob.searchFrom crowded [[.char 'a', .anyText], Glob.literally "p.yaml"] "." =
      ["a*/p.yaml", "ab/p.yaml"] := by
    rw [Glob.searchFrom_of_wild rfl rfl rfl, hchildren]
    rfl
  have hfound : Glob.search crowded "a*/p.yaml" = .ok ["a*/p.yaml", "ab/p.yaml"] := by
    rw [Glob.search_of_parse rfl hparts (by simp) (by decide)]
    exact congrArg Except.ok hsearch
  exact discover_of_search rfl hfound (by decide) (by decide)

/-- Two dots are matched by a dot and a star. -/
theorem discover_nested : discover nested "d" ".*/q.yaml" = .ok ["d/../q.yaml"] := by
  have hparts : (Glob.partsOf "d/.*/q.yaml").mapM Glob.Pattern.parse =
      .ok [Glob.literally "d", [.char '.', .anyText], Glob.literally "q.yaml"] := rfl
  have hnames : nested.children ["d"] = ["a.yaml"] := List.mergeSort_of_pairwise (by decide)
  have hthere : nested.resolve "d" = .ok ["d"] := rfl
  have hchildren : Glob.children nested "d" = ["d/a.yaml"] := by
    rw [Glob.children_eq hthere, hnames]
    rfl
  have hsearch : Glob.searchFrom nested [[.char '.', .anyText], Glob.literally "q.yaml"] "d" =
      ["d/../q.yaml"] := by
    rw [Glob.searchFrom_of_wild rfl rfl rfl, hchildren]
    rfl
  have hfound : Glob.search nested "d/.*/q.yaml" = .ok ["d/../q.yaml"] := by
    rw [Glob.search_of_parse rfl hparts (by simp) (by decide)]
    exact congrArg Except.ok hsearch
  exact discover_of_search rfl hfound (by decide) (by decide)

/-- So it is possible that documents beside a directory are discovered: if its name is taken for a
pattern, and if a part of the pattern matches two dots. -/
theorem discovered_elsewhere :
    Escapes crowded "a*" "p.yaml" "ab/p.yaml" ∧ Escapes nested "d" ".*/q.yaml" "d/../q.yaml" := by
  have hcrowded : ¬ crowded.Below "a*" ["ab", "p.yaml"] := by
    rintro ⟨base, names, hbase, -, hloc⟩
    obtain rfl : ["a*"] = base := Except.ok.inj hbase
    simp at hloc
  have hnested : ¬ nested.Below "d" ["q.yaml"] := by
    rintro ⟨base, names, hbase, -, hloc⟩
    obtain rfl : ["d"] = base := Except.ok.inj hbase
    simp at hloc
  constructor
  · exact ⟨by decide, by decide, by decide, by decide, ⟨_, discover_crowded, by simp⟩,
      ⟨_, rfl, hcrowded⟩⟩
  · exact ⟨by decide, by decide, by decide, by decide, ⟨_, discover_nested, by simp⟩,
      ⟨_, rfl, hnested⟩⟩

end Prompt

end Promptwright
