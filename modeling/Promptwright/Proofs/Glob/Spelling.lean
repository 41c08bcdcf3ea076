import Promptwright.Glob.Search
import Promptwright.Proofs.Files.Changes

/-!
# The paths that a pattern spells

Which paths the parts of a pattern match is a matter of names and not of the disk: each part stands
for a name, for a dot or two, or for names at any depth.  `Spells` says so without a search.  On a
disk such a path leads through the directories that the parts stand for, one after the other.

## Key results

- `FileTree.leadsTo_child_iff`, `FileTree.leadsTo_join_iff`: a path that goes on with one more name
- `fileName?_child`: the name that a path ends in
- `exists_leadsTo_of_spells`: a way along a path starts with a way to the directory
-/

namespace Promptwright

/-! ## Paths that go on with a name -/

namespace Path

variable {p s : String}

/-- A text without slashes is no absolute path. -/
theorem isAbsolute_eq_false (h : '/' ∉ s.toList) : isAbsolute s = false := by
  rw [Bool.eq_false_iff]
  intro habsolute
  obtain ⟨s', ss, hss⟩ := (isAbsolute_iff s).mp habsolute
  rw [segments_of_not_mem h] at hss
  cases hss

/-- A segment that means nothing. -/
theorem part?_eq_none_iff : part? s = none ↔ s = "" ∨ s = "." := by
  rw [part?]
  split
  next h => exact iff_of_true rfl h
  next h => split <;> exact iff_of_false (by simp) h

/-- What a name means as a segment. -/
theorem IsName.part?_eq (h : IsName s) : part? s = some (.name s) := by
  obtain ⟨hempty, hhere, hup⟩ := h.ne
  rw [part?, if_neg (not_or.mpr ⟨hempty, hhere⟩), if_neg hup]

/-- The parts of a path: perhaps one for what it starts with, and those of its segments. -/
theorem exists_parts_eq (p : String) : ∃ first, parts p = first ++ (segments p).filterMap part? ∧
    (isAbsolute p = true → first = [.root]) ∧
    (isAbsolute p = false → first = [] ∨ (first = [.here] ∧ (segments p).head? = some ".")) := by
  rw [parts]
  cases isAbsolute p with
  | true => exact ⟨[.root], rfl, fun _ => rfl, by simp⟩
  | false =>
    rw [if_neg Bool.false_ne_true]
    split
    next hhead => exact ⟨[.here], rfl, by simp, fun _ => .inr ⟨rfl, hhead⟩⟩
    next => exact ⟨[], rfl, by simp, fun _ => .inl rfl⟩

/-- A path whose last segment is a name ends in this name. -/
theorem fileName?_eq {ss : List String} (h : IsName s) (hp : segments p = ss ++ [s]) :
    fileName? p = some s := by
  obtain ⟨first, hparts, -⟩ := exists_parts_eq p
  have hlast : (parts p).getLast? = some (.name s) := by
    rw [hparts, hp, List.filterMap_append, List.filterMap_cons_some h.part?_eq, List.filterMap_nil,
      ← List.append_assoc, List.getLast?_concat]
  rw [fileName?, hlast]

end Path

namespace FileTree

variable {t : FileTree} {d p s : String} {loc loc' mid : Location}

/-- Where a path leads to on a disk, as far as its names go. -/
def LeadsTo (t : FileTree) (p : String) (loc : Location) : Prop :=
  t.walk (t.start p) (Path.segments p) = .ok loc

/-- A path that the system takes: it is not empty, not too long, and does not end inside. -/
def Usable (p : String) : Prop := checkPath p = .ok ()

/-- A path leads to a location exactly if the system takes it and its names do. -/
theorem resolve_eq_ok_iff : t.resolve p = .ok loc ↔ Usable p ∧ t.LeadsTo p loc := by
  constructor
  · intro h
    obtain ⟨u, hcheck, hwalk⟩ := bind_eq_ok h
    exact ⟨hcheck, hwalk⟩
  · rintro ⟨hcheck, hwalk⟩
    rw [resolve, hcheck]
    exact hwalk

/-- A way of one step is a step. -/
theorem walk_singleton_iff : t.walk loc [s] = .ok loc' ↔ t.Step loc s loc' := by
  refine ⟨fun h => ?_, Step.walk⟩
  obtain ⟨mid, hstep, h⟩ := walk_cons_iff.mp h
  cases h
  exact hstep

/-- A step that does not go up leads to something that is there. -/
theorem Step.isSome (h : t.Step loc s loc') (hs : s ≠ "..") : (t.get? loc').isSome = true := by
  cases h with
  | stay hdir =>
    rw [hasDir_iff.mp hdir]
    rfl
  | up _ hup => exact absurd hup hs
  | name _ _ _ hsome => exact hsome

/-- A step along a name leads from a directory to what has this name in it. -/
theorem Step.of_isName (h : t.Step loc s loc') (hs : Path.IsName s) :
    loc' = loc ++ [s] ∧ t.hasDir loc = true ∧ (t.get? (loc ++ [s])).isSome = true := by
  obtain ⟨hempty, hhere, hup⟩ := hs.ne
  cases h with
  | stay _ hblank => exact absurd hblank (not_or.mpr ⟨hempty, hhere⟩)
  | up _ hs => exact absurd hs hup
  | name hdir _ _ hsome => exact ⟨rfl, hdir, hsome⟩

/-- Segments that mean nothing lead nowhere else. -/
theorem eq_of_walk_blank {ss : List String} (hss : ∀ s ∈ ss, s = "" ∨ s = ".")
    (h : t.walk loc ss = .ok loc') : loc' = loc := by
  induction ss with
  | nil => exact (Except.ok.inj h).symm
  | cons s ss ih =>
    obtain ⟨hs, hss⟩ := List.forall_mem_cons.mp hss
    obtain ⟨mid, hstep, h⟩ := walk_cons_iff.mp h
    cases hstep with
    | stay => exact ih hss h
    | up _ hup => subst hup; simp at hs
    | name _ hname => exact absurd hs hname.1

/-- From a directory they always lead back to it. -/
theorem walk_eq_ok_of_blank {ss : List String} (hss : ∀ s ∈ ss, s = "" ∨ s = ".")
    (h : t.hasDir loc = true) : t.walk loc ss = .ok loc := by
  induction ss with
  | nil => rfl
  | cons s ss ih =>
    obtain ⟨hs, hss⟩ := List.forall_mem_cons.mp hss
    exact walk_cons_iff.mpr ⟨loc, .stay h hs, ih hss⟩

/-- A path that goes on with a name leads one step further than the path. -/
theorem leadsTo_join_iff (hs : '/' ∉ s.toList) :
    t.LeadsTo (Path.join d s) loc ↔ ∃ mid, t.LeadsTo d mid ∧ t.Step mid s loc := by
  obtain ⟨hstart, ds, hjoin, hds⟩ := Path.exists_segments_join d (Path.isAbsolute_eq_false hs)
  have hwalk : ∀ mid, t.Step mid s loc →
      (t.walk (t.start d) (Path.segments d) = .ok mid ↔ t.walk (t.start d) ds = .ok mid) := by
    intro mid hstep
    obtain hds | hds := hds
    · rw [hds]
    · -- the empty segment at the end leads nowhere else
      rw [hds, walk_append]
      constructor
      · intro h
        obtain ⟨mid', hmid, hblank⟩ := bind_eq_ok h
        rw [hmid, eq_of_walk_blank (by simp) hblank]
      · intro h
        rw [h]
        exact walk_blank hstep.hasDir
  rw [LeadsTo, start, hstart, ← start, hjoin, Path.segments_of_not_mem hs, walk_append]
  constructor
  · intro h
    obtain ⟨mid, hmid, hlast⟩ := bind_eq_ok h
    have hstep := walk_singleton_iff.mp hlast
    exact ⟨mid, (hwalk mid hstep).mpr hmid, hstep⟩
  · rintro ⟨mid, hmid, hstep⟩
    rw [(hwalk mid hstep).mp hmid]
    exact hstep.walk

/-- The segments of a mere dot mean nothing. -/
theorem segments_of_isCurrent (h : Glob.isCurrent d = true) :
    t.start d = t.current ∧ ∀ s ∈ Path.segments d, s = "" ∨ s = "." := by
  have hparts : Path.parts d = [.here] := by simpa [Glob.isCurrent] using h
  obtain ⟨first, heq, habsolute, hrelative⟩ := Path.exists_parts_eq d
  rw [hparts] at heq
  cases hd : Path.isAbsolute d with
  | true =>
    rw [habsolute hd] at heq
    cases heq
  | false =>
    refine ⟨by rw [start, hd, if_neg Bool.false_ne_true], ?_⟩
    obtain rfl | ⟨rfl, -⟩ := hrelative hd
    · -- a dot is a part at the start of a path only
      have hhere : Path.Part.here ∈ (Path.segments d).filterMap Path.part? := by
        rw [List.nil_append] at heq
        rw [← heq]
        exact List.mem_singleton_self _
      obtain ⟨s, -, hs⟩ := List.mem_filterMap.mp hhere
      rw [Path.part?] at hs
      split at hs
      · cases hs
      · split at hs <;> cases hs
    · have hnone : (Path.segments d).filterMap Path.part? = [] := by simpa using heq.symm
      rw [List.filterMap_eq_nil_iff] at hnone
      exact fun s hs => Path.part?_eq_none_iff.mp (hnone s hs)

/-- The path of a name in a directory leads one step further than the directory. -/
theorem leadsTo_child_iff (hs : '/' ∉ s.toList) :
    t.LeadsTo (Glob.child d s) loc ↔ ∃ mid, t.LeadsTo d mid ∧ t.Step mid s loc := by
  rw [Glob.child]
  split
  next hd =>
    -- the current directory has blank segments only, so the name is all of the way
    obtain ⟨hdstart, hblank⟩ := segments_of_isCurrent hd (t := t)
    have hstart : t.start s = t.current := by
      rw [start, Path.isAbsolute_eq_false hs, if_neg Bool.false_ne_true]
    rw [LeadsTo, hstart, Path.segments_of_not_mem hs, walk_singleton_iff]
    constructor
    · intro hstep
      refine ⟨t.current, ?_, hstep⟩
      rw [LeadsTo, hdstart]
      exact walk_eq_ok_of_blank hblank hstep.hasDir
    · rintro ⟨mid, hmid, hstep⟩
      rw [LeadsTo, hdstart] at hmid
      rwa [eq_of_walk_blank hblank hmid] at hstep
  next => exact leadsTo_join_iff hs

end FileTree

namespace Glob

open FileTree (Usable)
open Promptwright.Path (IsName)

variable {t : FileTree} {p q : Pattern} {ps qs : List Pattern} {d dir path s : String}
  {loc : Location} {n : Nat}

/-! ## Names in a directory -/

/-- The path of a name in a directory ends in this name. -/
theorem fileName?_child (hs : IsName s) (d : String) : Path.fileName? (child d s) = some s := by
  rw [child]
  split
  next =>
    have hsegments : Path.segments s = [] ++ [s] := Path.segments_of_not_mem hs.slash
    exact Path.fileName?_eq hs hsegments
  next =>
    obtain ⟨-, ds, hjoin, -⟩ := Path.exists_segments_join d (Path.isAbsolute_eq_false hs.slash)
    rw [Path.segments_of_not_mem hs.slash] at hjoin
    exact Path.fileName?_eq hs hjoin

/-- So it is matched if the name is. -/
theorem matchesPath_child (hs : IsName s) (p : Pattern) (d : String) :
    matchesPath p (child d s) = p.matchesName s.toList := by
  rw [matchesPath, fileName?_child hs]

/-! ## What a pattern spells -/

/-- The paths that are some names below a directory.  The number of names is counted. -/
inductive Descends : Nat → String → String → Prop
  | child {d s : String} (hd : Usable d) (hs : IsName s) : Descends 1 d (child d s)
  | deeper {n : Nat} {d s path : String} (hd : Usable d) (hs : IsName s)
      (h : Descends n (Glob.child d s) path) : Descends (n + 1) d path

/-- The paths that the parts of a pattern match, from a directory on.  A part without wildcards
stands for itself.  Any other one stands for a name that it matches, or for a dot or two if it
spells out the first of them; and `**` for any number of names in front of one that the next part
matches.  The paths of directories on the way are such that the system takes them. -/
inductive Spells : List Pattern → String → String → Prop
  | done {path : String} : Spells [] path path
  /-- A part that is a dot or two. -/
  | dots {p : Pattern} {ps : List Pattern} {d s path : String} (hp : p.literal? = some s.toList)
      (hs : s = "." ∨ s = "..") (hd : Usable d) (h : Spells ps (child d s) path) :
      Spells (p :: ps) d path
  /-- Any other part without wildcards. -/
  | literal {p : Pattern} {ps : List Pattern} {d s path : String} (hp : p.literal? = some s.toList)
      (hs : ¬ (s = "." ∨ s = "..")) (hslash : '/' ∉ s.toList) (hd : Usable (child d s))
      (h : Spells ps (child d s) path) : Spells (p :: ps) d path
  /-- A dot or two that a part with wildcards matches. -/
  | wildDots {p : Pattern} {ps : List Pattern} {d s path : String} (hp : p.literal? = none)
      (hr : p.isRecursive = false) (hs : s ∈ dotNames p) (hd : Usable d)
      (h : Spells ps (Path.join d s) path) : Spells (p :: ps) d path
  /-- A name that it matches. -/
  | name {p : Pattern} {ps : List Pattern} {d s path : String} (hp : p.literal? = none)
      (hr : p.isRecursive = false) (hs : IsName s) (hm : p.matchesName s.toList = true)
      (hd : Usable d) (h : Spells ps (child d s) path) : Spells (p :: ps) d path
  /-- Names at any depth, the last of which the next part matches. -/
  | anyDepth {p q : Pattern} {qs : List Pattern} {n : Nat} {d d' path : String}
      (hr : p.isRecursive = true) (hd : Descends n d d') (hm : matchesPath q d' = true)
      (h : Spells qs d' path) : Spells (p :: q :: qs) d path

/-! ## Ways along such a path -/

/-- The dots that a part matches. -/
theorem eq_of_mem_dotNames (h : s ∈ dotNames p) : s = ".." ∨ s = "." := by
  rw [dotNames] at h
  split at h
  next =>
    obtain ⟨⟨name, cs⟩, hmem, hs⟩ := List.mem_filterMap.mp h
    dsimp only at hs
    split at hs
    next =>
      cases hs
      obtain ⟨h, -⟩ | ⟨h, -⟩ : (s = ".." ∧ cs = ['.', '.']) ∨ (s = "." ∧ cs = ['.']) := by
        simpa using hmem
      · exact .inl h
      · exact .inr h
    next => cases hs
  next => cases h

/-- They hold no slash. -/
theorem slash_not_mem_of_dots (h : s = "." ∨ s = "..") : '/' ∉ s.toList := by
  obtain rfl | rfl := h <;> decide

/-- A way to a path that is some names below a directory passes the directory, and these names are
there. -/
theorem Descends.exists_leadsTo (h : Descends n d path) (hpath : t.LeadsTo path loc) :
    ∃ mid names, t.LeadsTo d mid ∧ t.hasDir mid = true ∧ loc = mid ++ names ∧ names.length = n ∧
      ∀ k < n, (t.get? (mid ++ names.take (k + 1))).isSome = true := by
  -- the first name is there because of its step, and the others by induction
  induction h with
  | @child d s hd hs =>
    obtain ⟨mid, hmid, hstep⟩ := (FileTree.leadsTo_child_iff hs.slash).mp hpath
    obtain ⟨rfl, hdir, hsome⟩ := hstep.of_isName hs
    refine ⟨mid, [s], hmid, hdir, rfl, rfl, fun k hk => ?_⟩
    obtain rfl : k = 0 := Nat.lt_one_iff.mp hk
    exact hsome
  | @deeper n d s path hd hs _ ih =>
    obtain ⟨next, names, hnext, -, rfl, rfl, hsome'⟩ := ih hpath
    obtain ⟨mid, hmid, hstep⟩ := (FileTree.leadsTo_child_iff hs.slash).mp hnext
    obtain ⟨rfl, hdir, hsome⟩ := hstep.of_isName hs
    refine ⟨mid, s :: names, hmid, hdir, by rw [List.append_assoc]; rfl, rfl, fun k hk => ?_⟩
    cases k with
    | zero => exact hsome
    | succ k =>
      have hk := hsome' k (Nat.lt_of_succ_lt_succ hk)
      rwa [List.append_assoc] at hk

/-- One step of a way along a path that a pattern spells: where the rest of it starts from. -/
theorem exists_step_of_leadsTo (hd : d = child dir s ∨ d = Path.join dir s) (hs : '/' ∉ s.toList)
    (h : t.LeadsTo d loc) : ∃ mid, t.LeadsTo dir mid ∧ t.Step mid s loc := by
  obtain rfl | rfl := hd
  · exact (FileTree.leadsTo_child_iff hs).mp h
  · exact (FileTree.leadsTo_join_iff hs).mp h

/-- A way along a path that a pattern spells starts with a way to the directory. -/
theorem exists_leadsTo_of_spells (h : Spells ps dir path) (hpath : t.LeadsTo path loc) :
    ∃ mid, t.LeadsTo dir mid ∧ (ps ≠ [] → t.hasDir mid = true) := by
  -- every part but the one for any depth ends with a step, and a step is taken from a directory
  induction h with
  | done => exact ⟨loc, hpath, fun h => absurd rfl h⟩
  | dots _ hs _ _ ih =>
    obtain ⟨next, hnext, -⟩ := ih hpath
    obtain ⟨mid, hmid, hstep⟩ := exists_step_of_leadsTo (.inl rfl) (slash_not_mem_of_dots hs) hnext
    exact ⟨mid, hmid, fun _ => hstep.hasDir⟩
  | literal _ _ hslash _ _ ih =>
    obtain ⟨next, hnext, -⟩ := ih hpath
    obtain ⟨mid, hmid, hstep⟩ := exists_step_of_leadsTo (.inl rfl) hslash hnext
    exact ⟨mid, hmid, fun _ => hstep.hasDir⟩
  | wildDots _ _ hs _ _ ih =>
    obtain ⟨next, hnext, -⟩ := ih hpath
    have hslash := slash_not_mem_of_dots (eq_of_mem_dotNames hs).symm
    obtain ⟨mid, hmid, hstep⟩ := exists_step_of_leadsTo (.inr rfl) hslash hnext
    exact ⟨mid, hmid, fun _ => hstep.hasDir⟩
  | name _ _ hs _ _ _ ih =>
    obtain ⟨next, hnext, -⟩ := ih hpath
    obtain ⟨mid, hmid, hstep⟩ := exists_step_of_leadsTo (.inl rfl) hs.slash hnext
    exact ⟨mid, hmid, fun _ => hstep.hasDir⟩
  | anyDepth _ hd _ _ ih =>
    obtain ⟨next, hnext, -⟩ := ih hpath
    obtain ⟨mid, -, hmid, hdir, -⟩ := hd.exists_leadsTo hnext
    exact ⟨mid, hmid, fun _ => hdir⟩

end Glob

end Promptwright
