import Promptwright.Proofs.Except
import Promptwright.Proofs.Glob.Search

/-!
# Patterns below a directory

The path of a directory and a pattern are joined to one text, which is then read as a pattern.
Where the path holds no character with a meaning in patterns, its parts stand for themselves, and
those of the pattern come after them.  So what is found is what the pattern spells below the
directory.

## Key results

- `partsOf_join`: the parts of a joined text
- `parse_of_plain`: texts without wildcards
- `mem_search_join_iff`: the files that a pattern matches below a directory
-/

namespace Promptwright

namespace Text

/-- A text that does not end with the separator has a last part that is not empty. -/
theorem getLast?_splitAt_concat {sep c : Char} (hc : c ≠ sep) (cs : List Char) :
    (splitAt sep (cs ++ [c])).getLast? ≠ some [] := by
  induction cs with
  | nil => simp [splitAt, hc]
  | cons a cs ih =>
    obtain ⟨w, ws, hw⟩ := List.exists_cons_of_ne_nil (splitAt_ne_nil sep (cs ++ [c]))
    rw [List.cons_append]
    by_cases ha : a = sep
    · rw [splitAt, if_pos ha, List.getLast?_cons_of_ne_nil (splitAt_ne_nil _ _)]
      exact ih
    · rw [splitAt, if_neg ha, hw]
      rw [hw] at ih
      cases ws with
      | nil => simp
      | cons v ws => simpa using ih

end Text

namespace Path

/-- The last segment of a path that ends in something is not empty. -/
theorem getLast?_segments_ne {p : String} {c : Char} (h : p.toList.getLast? = some c)
    (hc : c ≠ '/') : (segments p).getLast? ≠ some "" := by
  obtain ⟨cs, hcs⟩ := List.getLast?_eq_some_iff.mp h
  rw [segments, hcs, List.getLast?_map]
  intro hlast
  obtain ⟨w, hw, hempty⟩ := Option.map_eq_some_iff.mp hlast
  rw [← String.ofList_nil, String.ofList_inj] at hempty
  rw [hempty] at hw
  exact Text.getLast?_splitAt_concat hc cs hw

end Path

namespace Glob

open FileTree (Usable)

variable {t : FileTree} {q : Pattern} {ps : List Pattern} {d dir p path : String}

/-! ## Joined texts -/

/-- The parts among segments: a last one that is empty is left out. -/
def trim (ss : List String) : List String := if ss.getLast? = some "" then ss.dropLast else ss

/-- The segments of a pattern, without what is in front of the first slash of an absolute one. -/
def body (pattern : String) : List String :=
  if Path.isAbsolute pattern then (Path.segments pattern).drop 1 else Path.segments pattern

/-- The parts of a pattern are those among these segments. -/
theorem partsOf_eq (pattern : String) : partsOf pattern = trim (body pattern) := rfl

/-- Only the first of them is left out. -/
theorem body_eq_of_append {pattern : String} {ds ss : List String} (hds : ds ≠ [])
    (h : Path.segments pattern = ds ++ ss) :
    body pattern = (if Path.isAbsolute pattern then ds.drop 1 else ds) ++ ss := by
  rw [body, h]
  split
  · exact List.drop_append_of_le_length (List.length_pos_of_ne_nil hds)
  · rfl

/-- Segments in front stay. -/
theorem trim_append (ds : List String) {ss : List String} (hss : ss ≠ []) :
    trim (ds ++ ss) = ds ++ trim ss := by
  rw [trim, trim, List.getLast?_append_of_ne_nil _ hss]
  split
  next => rw [List.dropLast_append_of_ne_nil hss]
  next => rfl

/-- They end in something if the pattern does. -/
theorem getLast?_body_ne {c : Char} (h : dir.toList.getLast? = some c) (hc : c ≠ '/') :
    (body dir).getLast? ≠ some "" := by
  have hsegments := Path.getLast?_segments_ne h hc
  rw [body]
  split
  next =>
    intro hlast
    obtain ⟨s, ss, hss⟩ := List.exists_cons_of_ne_nil (Path.segments_ne_nil dir)
    rw [hss, List.drop_one, List.tail_cons] at hlast
    rw [hss, List.getLast?_cons_of_ne_nil (by rintro rfl; cases hlast)] at hsegments
    exact hsegments hlast
  next => exact hsegments

/-- A relative pattern below a directory has the parts of the directory and then its own. -/
theorem partsOf_join (dir : String) (hp : Path.isAbsolute p = false) :
    partsOf (Path.join dir p) = partsOf dir ++ partsOf p := by
  have hstart := (Path.exists_segments_join dir hp).1
  have hparts : partsOf p = trim (Path.segments p) := by
    rw [partsOf_eq, body, hp, if_neg Bool.false_ne_true]
  by_cases hdir : dir = ""
  · rw [hdir, Path.join, hp]
    rfl
  obtain ⟨c, hc⟩ := Option.isSome_iff_exists.mp
    (List.getLast?_isSome.mpr (mt String.toList_eq_nil_iff.mp hdir))
  have hjoin : Path.join dir p = if c = '/' then dir ++ p else dir ++ "/" ++ p := by
    rw [Path.join, hp, hc]
    simp [hdir]
  rw [partsOf_eq, partsOf_eq dir, hparts]
  by_cases hend : c = '/'
  · -- the empty segment behind the slash at the end is left out in both
    rw [if_pos hend] at hjoin
    obtain ⟨ds, hds⟩ := List.getLast?_eq_some_iff.mp hc
    obtain rfl : dir = String.ofList ds ++ "/" := by
      rw [← String.toList_inj, hds, String.toList_append, String.toList_ofList, hend]
      rfl
    have hlast := Path.segments_append_slash (String.ofList ds) ""
    rw [String.append_empty, Path.segments_empty] at hlast
    have hne := Path.segments_ne_nil (String.ofList ds)
    rw [body_eq_of_append hne (by rw [hjoin, Path.segments_append_slash]), hstart,
      body_eq_of_append hne hlast, trim_append _ (Path.segments_ne_nil p),
      trim_append _ (List.cons_ne_nil _ _)]
    simp [trim]
  · rw [if_neg hend] at hjoin
    rw [body_eq_of_append (Path.segments_ne_nil dir) (by rw [hjoin, Path.segments_append_slash]),
      hstart, ← body, trim_append _ (Path.segments_ne_nil p), trim.eq_1 (body dir),
      if_neg (getLast?_body_ne hc hend)]

/-- A pattern that ends in something has a part. -/
theorem partsOf_ne_nil {c : Char} (h : p.toList.getLast? = some c) (hc : c ≠ '/') :
    partsOf p ≠ [] := by
  rw [partsOf_eq, trim, if_neg (getLast?_body_ne h hc), body]
  split
  next habsolute =>
    obtain ⟨s, ss, hss⟩ := (Path.isAbsolute_iff p).mp habsolute
    rw [hss]
    exact List.cons_ne_nil s ss
  next => exact Path.segments_ne_nil p

/-- So there is something to follow. -/
theorem ne_nil_of_mapM_parse {c : Char} (h : p.toList.getLast? = some c) (hc : c ≠ '/')
    (hps : (partsOf p).mapM Pattern.parse = .ok ps) : ps ≠ [] := by
  rintro rfl
  exact partsOf_ne_nil h hc (List.length_eq_zero_iff.mp (mapM_eq_ok hps).length_eq)

/-- The parts of a pattern are segments of it. -/
theorem mem_segments_of_mem_partsOf {s : String} (h : s ∈ partsOf p) : s ∈ Path.segments p := by
  have htrim : ∀ {ss : List String}, s ∈ trim ss → s ∈ ss := by
    intro ss h
    rw [trim] at h
    split at h
    · exact List.mem_of_mem_dropLast h
    · exact h
  rw [partsOf_eq] at h
  have hbody := htrim h
  rw [body] at hbody
  split at hbody
  · exact List.mem_of_mem_drop hbody
  · exact hbody

/-! ## Parts as items -/

/-- The part that stands for a text alone. -/
def literally (s : String) : Pattern := s.toList.map .char

/-- A text in which no character has a meaning in patterns. -/
def IsPlain (s : String) : Prop := ∀ c ∈ s.toList, c ≠ '*' ∧ c ≠ '?' ∧ c ≠ '['

-- over the characters of the text, not over all there are
instance (s : String) : Decidable (IsPlain s) :=
  List.decidableBAll (fun c => c ≠ '*' ∧ c ≠ '?' ∧ c ≠ '[') s.toList

/-- Such a text stands for itself. -/
theorem parse_of_plain {s : String} (h : IsPlain s) : Pattern.parse s = .ok (literally s) := by
  have hall : ∀ (fuel position : Nat) (fresh : Bool) (cs : List Char), cs.length ≤ fuel →
      (∀ c ∈ cs, c ≠ '*' ∧ c ≠ '?' ∧ c ≠ '[') →
      Pattern.parseFrom fuel position fresh cs = .ok (cs.map .char) := by
    intro fuel
    induction fuel with
    | zero =>
      intro position fresh cs hlen _
      obtain rfl := List.length_eq_zero_iff.mp (Nat.le_zero.mp hlen)
      rfl
    | succ fuel ih =>
      intro position fresh cs hlen hcs
      cases cs with
      | nil => rfl
      | cons c cs =>
        obtain ⟨⟨hstar, hquestion, hbracket⟩, hcs⟩ := List.forall_mem_cons.mp hcs
        have ih := ih (position + 1) (c == '/') cs (Nat.le_of_succ_le_succ hlen) hcs
        -- all forms but that of a plain character start with one that has a meaning
        rw [Pattern.parseFrom.eq_def]
        split <;> simp_all [bind, Except.bind, pure, Except.pure]
  rw [Pattern.parse, hall s.length 0 true s.toList (Nat.le_of_eq String.length_toList) h]
  rfl

/-- A class is no character, and the text goes on behind it. -/
theorem takeClass?_cases {cs rest : List Char} {item : Item} {n : Nat}
    (h : Pattern.takeClass? cs = some (item, n, rest)) :
    (∀ c, item ≠ .char c) ∧ rest ⊆ cs := by
  have hcut : ∀ {cs inner rest : List Char},
      Text.cutAt? ']' cs = some (inner, rest) → rest ⊆ cs := by
    intro cs inner rest h
    rw [(Text.cutAt?_eq_some_iff.mp h).1]
    exact fun c hc => List.mem_append_right _ (List.mem_cons_of_mem _ hc)
  -- the text is cut at the closing bracket, with or without a mark in front of the class
  rw [Pattern.takeClass?.eq_def] at h
  split at h
  · obtain ⟨⟨inner, rest'⟩, hinner, h⟩ := Option.bind_eq_some_iff.mp h
    cases h
    exact ⟨nofun, fun c hc => List.mem_cons_of_mem _ (List.mem_cons_of_mem _ (hcut hinner hc))⟩
  · cases h
  · obtain ⟨⟨inner, rest'⟩, hinner, h⟩ := Option.bind_eq_some_iff.mp h
    cases h
    exact ⟨nofun, fun c hc => List.mem_cons_of_mem _ (hcut hinner hc)⟩
  · cases h

/-- The characters that a pattern stands for are characters of its text. -/
theorem mem_of_parseFrom {c : Char} {fuel position : Nat} {fresh : Bool} {cs : List Char}
    (h : Pattern.parseFrom fuel position fresh cs = .ok q) (hc : .char c ∈ q) : c ∈ cs := by
  fun_induction Pattern.parseFrom fuel position fresh cs generalizing q
  -- nothing is parsed in these cases, or nothing is left to be parsed
  case case1 | case2 | case4 | case5 | case8 | case10 => cases h; try cases hc
  case case3 ih | case9 ih =>
    obtain ⟨q', hq', h⟩ := bind_eq_ok h
    cases h
    exact List.mem_cons_of_mem _ (ih hq' ((List.mem_cons.mp hc).resolve_left nofun))
  case case6 =>
    cases h
    simp at hc
  case case7 ih =>
    obtain ⟨q', hq', h⟩ := bind_eq_ok h
    cases h
    have hmem := ih hq' ((List.mem_cons.mp hc).resolve_left nofun)
    simp [hmem]
  -- a class is no character, so this one comes from behind it
  case case11 hclass ih =>
    obtain ⟨q', hq', h⟩ := bind_eq_ok h
    cases h
    obtain ⟨hitem, hsub⟩ := takeClass?_cases hclass
    have hmem := (List.mem_cons.mp hc).resolve_left (Ne.symm (hitem c))
    exact List.mem_cons_of_mem _ (hsub (ih hq' hmem))
  case case12 ih =>
    obtain ⟨q', hq', h⟩ := bind_eq_ok h
    cases h
    obtain heq | hmem := List.mem_cons.mp hc
    · cases heq
      exact List.mem_cons_self
    · exact List.mem_cons_of_mem _ (ih hq' hmem)

/-- So the pattern of a part holds no slash. -/
theorem slash_not_mem_of_parse {s : String} (hs : s ∈ partsOf p) (h : Pattern.parse s = .ok q) :
    Item.char '/' ∉ q := by
  intro hslash
  exact Path.slash_not_mem_of_mem_segments (mem_segments_of_mem_partsOf hs)
    (mem_of_parseFrom h hslash)

/-! ## Parts that stand for themselves -/

/-- Their text. -/
@[simp] theorem literal?_literally (s : String) : (literally s).literal? = some s.toList :=
  literal?_eq_some_iff.mpr rfl

/-- They are no parts for any depth. -/
@[simp] theorem isRecursive_literally (s : String) : (literally s).isRecursive = false := by
  rw [← Bool.not_eq_true]
  intro h
  cases (literal?_literally s).symm.trans (literal?_of_isRecursive h)

/-- What such a part spells, and what the parts behind it do. -/
theorem spells_literally_iff {s : String} : Spells (literally s :: ps) d path ↔
    (if s = "." ∨ s = ".." then Usable d else '/' ∉ s.toList ∧ Usable (child d s)) ∧
      Spells ps (child d s) path := by
  constructor
  · intro h
    -- the part holds no wildcard, so it is one of the first two
    cases h with
    | dots hp hs hd h =>
      rw [literal?_literally, Option.some.injEq, String.toList_inj] at hp
      subst hp
      exact ⟨by rwa [if_pos hs], h⟩
    | literal hp hs hslash hd h =>
      rw [literal?_literally, Option.some.injEq, String.toList_inj] at hp
      subst hp
      exact ⟨by rw [if_neg hs]; exact ⟨hslash, hd⟩, h⟩
    | wildDots hp => simp at hp
    | name hp => simp at hp
    | anyDepth hr => simp at hr
  · rintro ⟨hd, h⟩
    split at hd
    next hs => exact .dots (literal?_literally s) hs hd h
    next hs => exact .literal (literal?_literally s) hs hd.1 hd.2 h

/-- Nothing spells the directory. -/
theorem spells_nil_iff : Spells [] d path ↔ path = d := by
  constructor
  · rintro ⟨⟩
    rfl
  · rintro rfl
    exact .done

/-- Parts that stand for themselves lead to a directory, and the parts behind them go on there. -/
theorem spells_append_iff {ss : List String} : Spells (ss.map literally ++ ps) d path ↔
    ∃ base, Spells (ss.map literally) d base ∧ Spells ps base path := by
  induction ss generalizing d with
  | nil => simp [spells_nil_iff]
  | cons s ss ih => simp only [List.map_cons, List.cons_append, spells_literally_iff, ih,
      ← exists_and_left, and_assoc]

/-- They stay when parts for any depth are taken together. -/
theorem collapse_append (ss : List String) (ps : List Pattern) :
    collapse (ss.map literally ++ ps) = ss.map literally ++ collapse ps := by
  induction ss with
  | nil => rfl
  | cons s ss ih =>
    rw [List.map_cons, List.cons_append, List.cons_append, ← ih]
    cases ss.map literally ++ ps with
    | nil => rfl
    | cons q qs => rw [collapse, isRecursive_literally, Bool.false_and, if_neg Bool.false_ne_true]

/-- No part comes in that way. -/
theorem collapse_subset (ps : List Pattern) : collapse ps ⊆ ps := by
  induction ps using collapse.induct with
  | case1 p q ps hr ih =>
    rw [collapse, if_pos hr]
    exact fun r hr => List.mem_cons_of_mem p (ih hr)
  | case2 p q ps hr ih =>
    rw [collapse, if_neg hr]
    exact List.cons_subset_cons p ih
  | case3 ps h =>
    rw [collapse.eq_2 ps h]
    exact fun r hr => hr

/-- Something is left of some parts. -/
theorem collapse_ne_nil (h : ps ≠ []) : collapse ps ≠ [] := by
  induction ps using collapse.induct with
  | case1 p q ps hr ih =>
    rw [collapse, if_pos hr]
    exact ih (List.cons_ne_nil q ps)
  | case2 p q ps hr _ =>
    rw [collapse, if_neg hr]
    exact List.cons_ne_nil _ _
  | case3 ps hps =>
    rw [collapse.eq_2 ps hps]
    exact h

/-! ## Patterns below a directory -/

/-- The paths that a pattern matches below a directory: the parts of the directory lead to it, and
the pattern spells the path from there.  A pattern that ends in a slash matches no file. -/
def MatchesBelow (dir p path : String) : Prop :=
  ∃ c base ps, p.toList.getLast? = some c ∧ c ≠ '/' ∧
    Spells ((partsOf dir).map literally) (if Path.isAbsolute dir then "/" else ".") base ∧
    (partsOf p).mapM Pattern.parse = .ok ps ∧ Spells (collapse ps) base path

/-- The parts of a plain path stand for themselves. -/
theorem mapM_parse_of_plain (h : IsPlain dir) :
    (partsOf dir).mapM Pattern.parse = .ok ((partsOf dir).map literally) := by
  have hparts : ∀ s ∈ partsOf dir, IsPlain s := by
    intro s hs c hc
    obtain ⟨w, hw, rfl⟩ := List.mem_map.mp (mem_segments_of_mem_partsOf hs)
    rw [String.toList_ofList] at hc
    exact h c (Text.mem_of_mem_splitAt hw hc)
  generalize partsOf dir = ss at hparts
  induction ss with
  | nil => rfl
  | cons s ss ih =>
    obtain ⟨hs, hss⟩ := List.forall_mem_cons.mp hparts
    rw [List.mapM_cons, parse_of_plain hs, ih hss]
    rfl

/-- What is behind a directory in a path is at its end. -/
theorem getLast?_join (dir : String) (hne : p ≠ "") :
    (Path.join dir p).toList.getLast? = p.toList.getLast? := by
  have hlist : p.toList ≠ [] := mt String.toList_eq_nil_iff.mp hne
  rw [Path.join]
  split
  · rfl
  · split <;> rw [String.toList_append, List.getLast?_append_of_ne_nil _ hlist]

/-- A directory alone, as a pattern, is empty or ends in a slash. -/
theorem join_empty (dir : String) :
    dir = "" ∨ (Path.join dir "").toList.getLast? = some '/' := by
  rw [Path.join]
  split
  next h => exact .inl (by simpa [Path.isAbsolute] using h)
  · rw [String.append_empty, String.append_empty]
    split
    next h => exact .inr h
    next =>
      rw [String.toList_append]
      exact .inr List.getLast?_concat

/-- A search finds the files that the parts of the directory lead to, followed by those of the
pattern. -/
theorem mem_search_join_iff_mem_searchFrom {found : List String} (hdir : IsPlain dir)
    (hp : Path.isAbsolute p = false) (hfound : search t (Path.join dir p) = .ok found) :
    ∃ ps, (partsOf p).mapM Pattern.parse = .ok ps ∧ ∀ path, t.isFile path = true →
      (path ∈ found ↔ (∃ c, p.toList.getLast? = some c ∧ c ≠ '/') ∧
        path ∈ searchFrom t ((partsOf dir).map literally ++ collapse ps)
          (if Path.isAbsolute dir then "/" else ".")) := by
  obtain ⟨_, -, h⟩ := bind_eq_ok hfound
  obtain ⟨qs, hqs, h⟩ := bind_eq_ok h
  rw [partsOf_join dir hp, List.mapM_append, mapM_parse_of_plain hdir] at hqs
  obtain ⟨_, hdirs, hqs⟩ := bind_eq_ok hqs
  cases hdirs
  obtain ⟨ps, hps, hqs⟩ := bind_eq_ok hqs
  cases hqs
  cases h
  refine ⟨ps, hps, fun path hfile => ?_⟩
  have hnotDir : t.isDir path = false := FileTree.isDir_eq_false_of_isFile hfile
  -- without a pattern there is only the directory itself, which is no file
  by_cases hne : p = ""
  · subst hne
    refine iff_of_false ?_ (by simp)
    obtain rfl | hslash := join_empty dir
    · cases hps
      exact List.not_mem_nil
    · rw [if_pos hslash, List.mem_filter, hnotDir]
      simp
  rw [getLast?_join dir hne, collapse_append, (Path.exists_segments_join dir hp).1]
  obtain ⟨c, hc⟩ := Option.isSome_iff_exists.mp
    (List.getLast?_isSome.mpr (mt String.toList_eq_nil_iff.mp hne))
  simp only [hc, Option.some.injEq, exists_eq_left']
  by_cases hslash : c = '/'
  · rw [if_pos hslash, List.mem_filter, hnotDir]
    simp [hslash]
  · rw [if_neg hslash, if_neg (by simp [ne_nil_of_mapM_parse hc hslash hps])]
    simp [hslash]

/-- The files that a search finds below a directory are those that the pattern matches there. -/
theorem mem_search_join_iff {found : List String} (hnamed : t.Named) (hdir : IsPlain dir)
    (hp : Path.isAbsolute p = false) (hfound : search t (Path.join dir p) = .ok found)
    (hfile : t.isFile path = true) : path ∈ found ↔ MatchesBelow dir p path := by
  obtain ⟨ps, hps, hmem⟩ := mem_search_join_iff_mem_searchFrom hdir hp hfound
  -- the parts of the directory and those of the pattern hold no slash
  have hslash : ∀ q ∈ (partsOf dir).map literally ++ collapse ps, Item.char '/' ∉ q := by
    intro q hq
    obtain hq | hq := List.mem_append.mp hq
    · obtain ⟨s, hs, rfl⟩ := List.mem_map.mp hq
      have hs := Path.slash_not_mem_of_mem_segments (mem_segments_of_mem_partsOf hs)
      simpa [literally] using hs
    · obtain ⟨s, hs, hparse⟩ := exists_of_mem_right (mapM_eq_ok hps) (collapse_subset ps hq)
      exact slash_not_mem_of_parse hs hparse
  rw [hmem path hfile, mem_searchFrom_iff hnamed hslash hfile, spells_append_iff]
  constructor
  · rintro ⟨⟨c, hc, hne⟩, base, hbase, h⟩
    exact ⟨c, base, ps, hc, hne, hbase, hps, h⟩
  · rintro ⟨c, base, ps', hc, hne, hbase, hps', h⟩
    cases hps.symm.trans hps'
    exact ⟨⟨c, hc, hne⟩, base, hbase, h⟩

end Glob

end Promptwright
