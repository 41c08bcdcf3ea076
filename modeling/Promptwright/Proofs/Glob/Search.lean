import Mathlib.Data.List.Nodup
import Mathlib.Data.List.Perm.Subperm
import Promptwright.Proofs.Except
import Promptwright.Proofs.Glob.Spelling

/-!
# Searching finds what a pattern spells

A search follows a pattern through the directories of a disk.  All files that it finds are spelled
by the pattern, and it finds all that are: a file has directories on the way to it, each of which is
listed, and no file lies deeper than there are entries on the disk.

## Key results

- `mem_descendants_iff`: the names at any depth below a directory
- `mem_searchFrom_iff`: the files that are found from a directory on
-/

namespace Promptwright

namespace FileTree

variable {t : FileTree} {p s : String} {loc : Location}

/-! ## Entries -/

/-- There is something where the disk has an entry. -/
theorem isSome_get?_iff (hloc : loc ≠ []) :
    (t.get? loc).isSome = true ↔ loc ∈ t.entries.map Prod.fst := by
  rw [get?, if_neg (by simpa using hloc)]
  induction t.entries with
  | nil => simp
  | cons e es ih =>
    obtain ⟨l, x⟩ := e
    rw [lookup_cons_eq, List.map_cons, List.mem_cons]
    split
    next h => simp [h]
    next h => rw [ih, or_iff_right h]

/-- There are no more names on a way than entries, if everything on it is one. -/
theorem length_le_of_isSome {names : List String}
    (h : ∀ k < names.length, (t.get? (loc ++ names.take (k + 1))).isSome = true) :
    names.length ≤ t.entries.length := by
  -- the places on the way, from the first name to the last one
  let way := (List.range names.length).map fun k => loc ++ names.take (k + 1)
  have hnodup : way.Nodup := by
    refine List.Nodup.map_on (fun i hi j hj heq => ?_) List.nodup_range
    have hlen := congrArg List.length heq
    rw [List.mem_range] at hi hj
    simp only [List.length_append, List.length_take] at hlen
    omega
  have hsubset : way ⊆ t.entries.map Prod.fst := by
    intro loc' hloc'
    obtain ⟨k, hk, rfl⟩ := List.mem_map.mp hloc'
    rw [List.mem_range] at hk
    refine (isSome_get?_iff ?_).mp (h k hk)
    intro hnil
    have hlen := congrArg List.length hnil
    simp only [List.length_append, List.length_take, List.length_nil] at hlen
    omega
  -- all different, and all of them entries
  have hle := (hnodup.subperm hsubset).length_le
  rwa [List.length_map, List.length_range, List.length_map] at hle

/-- Where a path leads to a directory. -/
theorem isDir_iff : t.isDir p = true ↔ ∃ loc, t.resolve p = .ok loc ∧ t.hasDir loc = true := by
  rw [isDir, entry]
  cases h : t.resolve p with
  | error e => simp [bind, Except.bind]
  | ok loc =>
    have hdir : (∃ loc', (.ok loc : Except OsError Location) = .ok loc' ∧ t.hasDir loc' = true) ↔
        t.hasDir loc = true := by simp
    rw [hdir, hasDir]
    cases hget : t.get? loc with
    | none => simp [hget, bind, Except.bind]
    | some e => cases e <;> simp [hget, bind, Except.bind]

/-- Where there is something at a path. -/
theorem pathExists_iff :
    t.pathExists p = true ↔ ∃ loc, t.resolve p = .ok loc ∧ (t.get? loc).isSome = true := by
  rw [pathExists, entry]
  cases t.resolve p with
  | error e => simp [bind, Except.bind, Except.isOk, Except.toBool]
  | ok loc => cases h : t.get? loc <;> simp [h, bind, Except.bind, Except.isOk, Except.toBool]

/-- What a path leads to is a directory or a file, and not both. -/
theorem isDir_eq_false_of_isFile (h : t.isFile p = true) : t.isDir p = false := by
  obtain ⟨loc, bytes, hresolve, hget⟩ := isFile_iff.mp h
  rw [Bool.eq_false_iff]
  intro hdir
  obtain ⟨loc', hresolve', hdir⟩ := isDir_iff.mp hdir
  cases hresolve.symm.trans hresolve'
  cases hget.symm.trans (hasDir_iff.mp hdir)

/-- The name of an entry just below a directory. -/
theorem childName?_eq_some_iff {dir : Location} :
    childName? dir loc = some s ↔ loc = dir ++ [s] := by
  rw [childName?]
  constructor
  · intro h
    split at h
    next name hdrop =>
      split at h
      next htake =>
        cases h
        rw [← List.take_append_drop dir.length loc, hdrop, htake]
      next => cases h
    next => cases h
  · rintro rfl
    simp

/-- The names in a directory. -/
theorem mem_children_iff {dir : Location} :
    s ∈ t.children dir ↔ (t.get? (dir ++ [s])).isSome = true := by
  have hne : dir ++ [s] ≠ [] := List.append_ne_nil_of_right_ne_nil _ (List.cons_ne_nil _ _)
  rw [children, List.mem_mergeSort, List.mem_filterMap, isSome_get?_iff hne, List.mem_map]
  constructor
  · rintro ⟨e, he, hname⟩
    exact ⟨e, he, childName?_eq_some_iff.mp hname⟩
  · rintro ⟨e, he, hloc⟩
    exact ⟨e, he, childName?_eq_some_iff.mpr hloc⟩

/-- The names of what is there are names. -/
theorem Named.isName (h : t.Named) {dir : Location} (hs : (t.get? (dir ++ [s])).isSome = true) :
    Path.IsName s := by
  have hne : dir ++ [s] ≠ [] := List.append_ne_nil_of_right_ne_nil _ (List.cons_ne_nil _ _)
  obtain ⟨e, he, hloc⟩ := List.mem_map.mp ((isSome_get?_iff hne).mp hs)
  exact h e he s (hloc ▸ List.mem_append_right _ (List.mem_singleton_self s))

end FileTree

namespace Glob

open FileTree (Usable)
open Promptwright.Path (IsName)

variable {t : FileTree} {p q : Pattern} {ps qs : List Pattern} {d dir path s : String}
  {loc : Location} {n fuel : Nat}

/-! ## Names at any depth -/

/-- The paths of the names in a directory. -/
theorem children_eq (h : t.resolve dir = .ok loc) :
    children t dir = (t.children loc).map (child dir) := by
  rw [children, h]

/-- There is one for each of them. -/
theorem mem_children_iff : path ∈ children t dir ↔ ∃ mid s, t.resolve dir = .ok mid ∧
    (t.get? (mid ++ [s])).isSome = true ∧ path = child dir s := by
  cases hmid : t.resolve dir with
  | ok mid =>
    simp only [children_eq hmid, List.mem_map, FileTree.mem_children_iff, Except.ok.injEq]
    constructor
    · rintro ⟨s, hs, rfl⟩
      exact ⟨mid, s, rfl, hs, rfl⟩
    · rintro ⟨_, s, rfl, hs, rfl⟩
      exact ⟨s, hs, rfl⟩
  | error e => simp [children, hmid]

/-- From a directory on, there is a name to go on with where a path goes on. -/
theorem child_mem_children (hd : Usable d) {mid : Location} (hmid : t.LeadsTo d mid)
    (h : t.Step mid s loc) (hs : IsName s) : child d s ∈ children t d :=
  mem_children_iff.mpr
    ⟨mid, s, FileTree.resolve_eq_ok_iff.mpr ⟨hd, hmid⟩, (h.of_isName hs).2.2, rfl⟩

/-- A path that names lead down from is taken by the system. -/
theorem Descends.usable (h : Descends n d path) : Usable d := by
  cases h <;> assumption

/-- What is found at some depth is so many names below. -/
theorem exists_descends_of_mem (hnamed : t.Named) (h : path ∈ descendantsWith t fuel d) :
    ∃ n, Descends n d path := by
  induction fuel generalizing d with
  | zero => cases h
  | succ fuel ih =>
    obtain ⟨next, hnext, h⟩ := List.mem_flatMap.mp h
    obtain ⟨mid, s, hmid, hsome, rfl⟩ := mem_children_iff.mp hnext
    have hd : Usable d := (FileTree.resolve_eq_ok_iff.mp hmid).1
    have hs := hnamed.isName hsome
    obtain rfl | h := List.mem_cons.mp h
    · exact ⟨1, .child hd hs⟩
    · split at h
      next =>
        obtain ⟨n, hn⟩ := ih h
        exact ⟨n + 1, .deeper hd hs hn⟩
      next => cases h

/-- What is so many names below is found, if it is there and the search goes deep enough. -/
theorem mem_of_descends (h : Descends n d path) (hpath : t.LeadsTo path loc) (hn : n ≤ fuel) :
    path ∈ descendantsWith t fuel d := by
  induction h generalizing fuel with
  | @child d s hd hs =>
    obtain ⟨fuel, rfl⟩ := Nat.exists_eq_add_of_le' hn
    obtain ⟨mid, hmid, hstep⟩ := (FileTree.leadsTo_child_iff hs.slash).mp hpath
    exact List.mem_flatMap.mpr ⟨_, child_mem_children hd hmid hstep hs, List.mem_cons_self⟩
  | @deeper n d s path hd hs h ih =>
    obtain ⟨fuel, rfl⟩ := Nat.exists_eq_add_of_le' (Nat.le_trans (Nat.le_add_left 1 n) hn)
    obtain ⟨next, _, hnext, hdir, -⟩ := h.exists_leadsTo hpath
    obtain ⟨mid, hmid, hstep⟩ := (FileTree.leadsTo_child_iff hs.slash).mp hnext
    refine List.mem_flatMap.mpr ⟨_, child_mem_children hd hmid hstep hs, List.mem_cons_of_mem _ ?_⟩
    rw [if_pos (FileTree.isDir_iff.mpr
      ⟨next, FileTree.resolve_eq_ok_iff.mpr ⟨h.usable, hnext⟩, hdir⟩)]
    exact ih hpath (Nat.le_of_succ_le_succ hn)

/-- Nothing lies deeper than there are entries, since everything on the way is one. -/
theorem Descends.le_length (h : Descends n d path) (hpath : t.LeadsTo path loc) :
    n ≤ t.entries.length := by
  obtain ⟨mid, names, -, -, -, rfl, hsome⟩ := h.exists_leadsTo hpath
  exact FileTree.length_le_of_isSome hsome

/-- What is there at any depth below a directory. -/
theorem mem_descendants_iff (hnamed : t.Named) (hpath : t.LeadsTo path loc) :
    path ∈ descendants t d ↔ ∃ n, Descends n d path := by
  constructor
  · exact exists_descends_of_mem hnamed
  · rintro ⟨n, hn⟩
    exact mem_of_descends hn hpath (Nat.le_succ_of_le (hn.le_length hpath))

/-! ## Parts without wildcards -/

/-- A part without wildcards is the characters that it stands for. -/
theorem literal?_eq_some_iff {cs : List Char} : p.literal? = some cs ↔ p = cs.map .char := by
  induction p generalizing cs with
  | nil => cases cs <;> simp [Pattern.literal?]
  | cons i p ih =>
    cases i with
    | char c =>
      cases cs with
      | nil => simp [Pattern.literal?]
      | cons c' cs =>
        rw [List.map_cons, List.cons.injEq, Item.char.injEq, ← ih]
        simp [Pattern.literal?, Option.map_eq_some_iff, and_comm]
    | _ => cases cs <;> simp [Pattern.literal?]

/-- A part for any depth has wildcards. -/
theorem literal?_of_isRecursive (h : p.isRecursive = true) : p.literal? = none := by
  cases hp : p.literal? with
  | none => rfl
  | some cs =>
    rw [literal?_eq_some_iff.mp hp, Pattern.isRecursive, List.contains_iff_mem] at h
    simp at h

/-! ## Following a pattern -/

/-- What is found through a part without wildcards. -/
theorem mem_searchFrom_of_literal (hp : p.literal? = some s.toList) :
    path ∈ searchFrom t (p :: ps) dir ↔
      (if s = "." ∨ s = ".." then t.isDir dir else t.pathExists (child dir s)) = true ∧
        path ∈ searchFrom t ps (child dir s) := by
  rw [searchFrom.eq_def]
  simp only [hp, String.ofList_toList]
  split
  all_goals split
  all_goals simp_all

/-- A part with wildcards is tried on the dots and on every name in a directory. -/
theorem searchFrom_of_wild (hp : p.literal? = none) (hr : p.isRecursive = false)
    (hdir : t.isDir dir = true) :
    searchFrom t (p :: ps) dir = ((dotNames p).map (Path.join dir)).flatMap (searchFrom t ps) ++
      ((children t dir).filter (matchesPath p)).flatMap (searchFrom t ps) := by
  rw [searchFrom.eq_def]
  simp only [hp, hr, hdir, Bool.not_true, Bool.not_false, if_true]
  rfl

/-- What is found through such a part. -/
theorem mem_searchFrom_of_wild (hp : p.literal? = none) (hr : p.isRecursive = false) :
    path ∈ searchFrom t (p :: ps) dir ↔ t.isDir dir = true ∧
      ((∃ s ∈ dotNames p, path ∈ searchFrom t ps (Path.join dir s)) ∨
        ∃ d ∈ children t dir, matchesPath p d = true ∧ path ∈ searchFrom t ps d) := by
  cases hdir : t.isDir dir with
  | true =>
    rw [searchFrom_of_wild hp hr hdir]
    simp [and_assoc]
  | false =>
    rw [searchFrom.eq_def]
    simp [hp, hdir]

/-- What is found through a part for any depth. -/
theorem mem_searchFrom_of_recursive (hr : p.isRecursive = true) :
    path ∈ searchFrom t (p :: q :: qs) dir ↔ t.isDir dir = true ∧
      ∃ d ∈ descendants t dir, matchesPath q d = true ∧ path ∈ searchFrom t qs d := by
  rw [searchFrom.eq_def]
  simp only [literal?_of_isRecursive hr, hr, Bool.not_true]
  cases t.isDir dir <;> simp [and_assoc]

/-- At the end such a part stands for directories. -/
theorem isDir_of_mem_searchFrom (hr : p.isRecursive = true) (h : path ∈ searchFrom t [p] dir) :
    t.isDir path = true := by
  rw [searchFrom.eq_def] at h
  simp only [literal?_of_isRecursive hr, hr, Bool.not_true] at h
  cases hdir : t.isDir dir <;> simp_all

/-- What is listed is a path that the system takes. -/
theorem usable_of_isDir (h : t.isDir d = true) : Usable d := by
  obtain ⟨loc, hresolve, -⟩ := FileTree.isDir_iff.mp h
  exact (FileTree.resolve_eq_ok_iff.mp hresolve).1

/-- A file that is found is spelled by the pattern. -/
theorem spells_of_mem_searchFrom (hnamed : t.Named) (hps : ∀ p ∈ ps, Item.char '/' ∉ p)
    (hfile : t.isFile path = true) (h : path ∈ searchFrom t ps dir) : Spells ps dir path := by
  -- on the number of parts, since a part for any depth takes the next one with it
  induction hn : ps.length using Nat.strongRecOn generalizing ps dir with
  | ind n ih =>
  subst hn
  cases ps with
  | nil =>
    rw [List.mem_singleton.mp h]
    exact .done
  | cons p ps =>
  obtain ⟨hp, hps⟩ := List.forall_mem_cons.mp hps
  have ih' : ∀ d, path ∈ searchFrom t ps d → Spells ps d path := fun d hd =>
    ih _ (Nat.lt_succ_self _) hps hd rfl
  cases hliteral : p.literal? with
  | some cs =>
    have hs : p.literal? = some (String.ofList cs).toList := by rw [hliteral, String.toList_ofList]
    obtain ⟨hcond, h⟩ := (mem_searchFrom_of_literal hs).mp h
    by_cases hdots : String.ofList cs = "." ∨ String.ofList cs = ".."
    · rw [if_pos hdots] at hcond
      exact .dots hs hdots (usable_of_isDir hcond) (ih' _ h)
    · rw [if_neg hdots] at hcond
      obtain ⟨loc, hresolve, -⟩ := FileTree.pathExists_iff.mp hcond
      refine .literal hs hdots ?_ (FileTree.resolve_eq_ok_iff.mp hresolve).1 (ih' _ h)
      rw [literal?_eq_some_iff.mp hliteral] at hp
      simpa using hp
  | none =>
    cases hr : p.isRecursive with
    | false =>
      obtain ⟨hdir, ⟨s, hs, h⟩ | ⟨d, hd, hm, h⟩⟩ := (mem_searchFrom_of_wild hliteral hr).mp h
      · exact .wildDots hliteral hr hs (usable_of_isDir hdir) (ih' _ h)
      · obtain ⟨mid, s, -, hsome, rfl⟩ := mem_children_iff.mp hd
        have hs := hnamed.isName hsome
        rw [matchesPath_child hs] at hm
        exact .name hliteral hr hs hm (usable_of_isDir hdir) (ih' _ h)
    | true =>
      cases ps with
      | nil =>
        have hfound := isDir_of_mem_searchFrom hr h
        rw [FileTree.isDir_eq_false_of_isFile hfile] at hfound
        cases hfound
      | cons q qs =>
        obtain ⟨-, d, hd, hm, h⟩ := (mem_searchFrom_of_recursive hr).mp h
        obtain ⟨n, hn⟩ := exists_descends_of_mem hnamed hd
        have hlt : qs.length < (p :: q :: qs).length := by
          rw [List.length_cons, List.length_cons]
          omega
        exact .anyDepth hr hn hm (ih _ hlt (List.forall_mem_cons.mp hps).2 h rfl)

/-- A path that is spelled by the pattern is found, if it leads anywhere. -/
theorem mem_searchFrom_of_spells (hnamed : t.Named) (h : Spells ps dir path)
    (hpath : t.LeadsTo path loc) : path ∈ searchFrom t ps dir := by
  -- a path that can be used and leads to a directory is searched
  have hisDir : ∀ {d mid}, Usable d → t.LeadsTo d mid → t.hasDir mid = true → t.isDir d = true :=
    fun hd hmid hdir =>
      FileTree.isDir_iff.mpr ⟨_, FileTree.resolve_eq_ok_iff.mpr ⟨hd, hmid⟩, hdir⟩
  induction h with
  | done => exact List.mem_singleton_self _
  | dots hp hs hd h ih =>
    obtain ⟨next, hnext, -⟩ := exists_leadsTo_of_spells h hpath
    obtain ⟨mid, hmid, hstep⟩ := (FileTree.leadsTo_child_iff (slash_not_mem_of_dots hs)).mp hnext
    refine (mem_searchFrom_of_literal hp).mpr ⟨?_, ih hpath⟩
    rw [if_pos hs]
    exact hisDir hd hmid hstep.hasDir
  | literal hp hs hslash hd h ih =>
    obtain ⟨next, hnext, -⟩ := exists_leadsTo_of_spells h hpath
    obtain ⟨mid, hmid, hstep⟩ := (FileTree.leadsTo_child_iff hslash).mp hnext
    refine (mem_searchFrom_of_literal hp).mpr ⟨?_, ih hpath⟩
    rw [if_neg hs]
    exact FileTree.pathExists_iff.mpr ⟨next, FileTree.resolve_eq_ok_iff.mpr ⟨hd, hnext⟩,
      hstep.isSome (not_or.mp hs).2⟩
  | wildDots hp hr hs hd h ih =>
    obtain ⟨next, hnext, -⟩ := exists_leadsTo_of_spells h hpath
    have hslash := slash_not_mem_of_dots (eq_of_mem_dotNames hs).symm
    obtain ⟨mid, hmid, hstep⟩ := (FileTree.leadsTo_join_iff hslash).mp hnext
    exact (mem_searchFrom_of_wild hp hr).mpr ⟨hisDir hd hmid hstep.hasDir, .inl ⟨_, hs, ih hpath⟩⟩
  | name hp hr hs hm hd h ih =>
    obtain ⟨next, hnext, -⟩ := exists_leadsTo_of_spells h hpath
    obtain ⟨mid, hmid, hstep⟩ := (FileTree.leadsTo_child_iff hs.slash).mp hnext
    refine (mem_searchFrom_of_wild hp hr).mpr ⟨hisDir hd hmid hstep.hasDir, .inr ⟨_,
      child_mem_children hd hmid hstep hs, ?_, ih hpath⟩⟩
    rwa [matchesPath_child hs]
  | anyDepth hr hd hm h ih =>
    obtain ⟨next, hnext, -⟩ := exists_leadsTo_of_spells h hpath
    obtain ⟨mid, -, hmid, hdir, -⟩ := hd.exists_leadsTo hnext
    exact (mem_searchFrom_of_recursive hr).mpr ⟨hisDir hd.usable hmid hdir, _,
      (mem_descendants_iff hnamed hnext).mpr ⟨_, hd⟩, hm, ih hpath⟩

/-- The files that are found from a directory on are those that the pattern spells. -/
theorem mem_searchFrom_iff (hnamed : t.Named) (hps : ∀ p ∈ ps, Item.char '/' ∉ p)
    (hfile : t.isFile path = true) : path ∈ searchFrom t ps dir ↔ Spells ps dir path := by
  refine ⟨spells_of_mem_searchFrom hnamed hps hfile, fun h => ?_⟩
  obtain ⟨loc, -, hresolve, -⟩ := FileTree.isFile_iff.mp hfile
  exact mem_searchFrom_of_spells hnamed h (FileTree.resolve_eq_ok_iff.mp hresolve).2

/-- What is found for a pattern that does not end in a slash. -/
theorem search_of_parse {pattern : String} (hparse : Pattern.parse pattern = .ok q)
    (hps : (partsOf pattern).mapM Pattern.parse = .ok ps) (hne : ps ≠ [])
    (hlast : pattern.toList.getLast? ≠ some '/') : search t pattern =
      .ok (searchFrom t (collapse ps) (if Path.isAbsolute pattern then "/" else ".")) := by
  have hempty : ¬ ps.isEmpty = true := by simpa using hne
  rw [search, hparse, bind_of_eq_ok rfl, hps, bind_of_eq_ok rfl]
  simp only [if_neg hlast, if_neg hempty]
  rfl

/-- Whether a pattern is refused does not depend on the disk. -/
theorem exists_search_eq_ok {pattern : String} {found : List String}
    (h : search t pattern = .ok found) (t' : FileTree) : ∃ found', search t' pattern = .ok found' := by
  obtain ⟨_, hparse, h⟩ := bind_eq_ok h
  obtain ⟨ps, hps, -⟩ := bind_eq_ok h
  rw [search, hparse, bind_of_eq_ok rfl, hps]
  exact ⟨_, rfl⟩

end Glob

end Promptwright
