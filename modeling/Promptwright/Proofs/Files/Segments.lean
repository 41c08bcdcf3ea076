import Promptwright.Files.Path
import Mathlib.Data.List.Infix

/-!
# The segments of paths

Joining paths and going to the parent of one is done on texts.  What this means for the segments is
said here: those of a joined path are the segments of both, and those of a parent are the first ones
of the path, up to an empty segment at the end.

## Key results

- `segments_append_slash`, `segments_intercalate`: texts with slashes between them
- `IsName.parts_eq`, `inward_intercalate`: paths that are made of names
- `exists_segments_join`: joined paths
- `startOf_of_parent?`, `startOf_join`: what paths start with
-/

namespace Promptwright

/-! ## Cutting at a character -/

namespace Text

variable {sep : Char}

/-- There is always a first part. -/
theorem splitAt_ne_nil (sep : Char) (cs : List Char) : splitAt sep cs ≠ [] := by
  cases cs with
  | nil => exact List.cons_ne_nil _ _
  | cons c cs =>
    rw [splitAt]
    split
    · exact List.cons_ne_nil _ _
    · split <;> exact List.cons_ne_nil _ _

/-- A character that is not the separator belongs to the first part. -/
theorem splitAt_cons_of_ne {c : Char} (hc : c ≠ sep) (cs : List Char) :
    ∃ w ws, splitAt sep cs = w :: ws ∧ splitAt sep (c :: cs) = (c :: w) :: ws := by
  obtain ⟨w, ws, h⟩ := List.exists_cons_of_ne_nil (splitAt_ne_nil sep cs)
  refine ⟨w, ws, h, ?_⟩
  rw [splitAt, if_neg hc, h]

/-- Texts with a separator between them are cut one after the other. -/
theorem splitAt_append (as bs : List Char) :
    splitAt sep (as ++ sep :: bs) = splitAt sep as ++ splitAt sep bs := by
  induction as with
  | nil => simp [splitAt]
  | cons a as ih =>
    by_cases ha : a = sep
    · rw [List.cons_append, splitAt, if_pos ha, ih, splitAt, if_pos ha, List.cons_append]
    · obtain ⟨w, ws, hw, ha'⟩ := splitAt_cons_of_ne ha as
      rw [List.cons_append, splitAt, if_neg ha, ih, hw, ha']
      rfl

/-- A text without the separator is not cut. -/
theorem splitAt_of_not_mem {cs : List Char} (h : sep ∉ cs) : splitAt sep cs = [cs] := by
  induction cs with
  | nil => rfl
  | cons c cs ih =>
    rw [List.mem_cons, not_or] at h
    rw [splitAt, if_neg (Ne.symm h.1), ih h.2]

/-- The parts are made of the characters of the text. -/
theorem mem_of_mem_splitAt {cs w : List Char} (hw : w ∈ splitAt sep cs) {c : Char} (hc : c ∈ w) :
    c ∈ cs := by
  induction cs generalizing w with
  | nil =>
    obtain rfl := List.mem_singleton.mp hw
    exact hc
  | cons a cs ih =>
    by_cases ha : a = sep
    · rw [splitAt, if_pos ha] at hw
      obtain rfl | hw := List.mem_cons.mp hw
      · cases hc
      · exact List.mem_cons_of_mem _ (ih hw hc)
    · obtain ⟨v, ws, hv, heq⟩ := splitAt_cons_of_ne ha cs
      rw [heq] at hw
      rw [hv] at ih
      obtain rfl | hw := List.mem_cons.mp hw
      · obtain rfl | hc := List.mem_cons.mp hc
        · exact List.mem_cons_self
        · exact List.mem_cons_of_mem _ (ih List.mem_cons_self hc)
      · exact List.mem_cons_of_mem _ (ih (List.mem_cons_of_mem _ hw) hc)

/-- No part holds the separator. -/
theorem not_mem_of_mem_splitAt {cs w : List Char} (hw : w ∈ splitAt sep cs) : sep ∉ w := by
  induction cs generalizing w with
  | nil =>
    obtain rfl := List.mem_singleton.mp hw
    exact List.not_mem_nil
  | cons c cs ih =>
    by_cases hc : c = sep
    · rw [splitAt, if_pos hc] at hw
      obtain rfl | hw := List.mem_cons.mp hw
      · exact List.not_mem_nil
      · exact ih hw
    · obtain ⟨v, ws, hv, heq⟩ := splitAt_cons_of_ne hc cs
      rw [heq] at hw
      rw [hv] at ih
      obtain rfl | hw := List.mem_cons.mp hw
      · rw [List.mem_cons, not_or]
        exact ⟨Ne.symm hc, ih List.mem_cons_self⟩
      · exact ih (List.mem_cons_of_mem _ hw)

/-- What stands before the first separator and after it. -/
theorem cutAt?_eq_some_iff {cs before after : List Char} :
    cutAt? sep cs = some (before, after) ↔ cs = before ++ sep :: after ∧ sep ∉ before := by
  induction cs generalizing before with
  | nil => simp [cutAt?]
  | cons c cs ih =>
    rw [cutAt?]
    -- a separator in front leaves nothing before it, and any other character is before it
    cases before with
    | nil =>
      by_cases hc : c = sep <;> simp [hc]
    | cons b before =>
      by_cases hc : c = sep
      · simp only [hc, if_true, List.cons_append, List.cons.injEq, List.mem_cons, not_or]
        refine iff_of_false (by simp) ?_
        rintro ⟨⟨hb, -⟩, hne, -⟩
        exact hne hb
      · simp only [if_neg hc, Option.map_eq_some_iff, Prod.exists, Prod.mk.injEq, List.cons_append,
          List.cons.injEq, List.mem_cons, not_or]
        constructor
        · rintro ⟨before', after', hcut, ⟨rfl, rfl⟩, rfl⟩
          obtain ⟨heq, hnot⟩ := ih.mp hcut
          exact ⟨⟨rfl, heq⟩, Ne.symm hc, hnot⟩
        · rintro ⟨⟨rfl, heq⟩, -, hnot⟩
          exact ⟨before, after, ih.mpr ⟨heq, hnot⟩, ⟨rfl, rfl⟩, rfl⟩

/-- A text without the separator has no place to be cut at. -/
theorem cutAt?_eq_none_iff {cs : List Char} : cutAt? sep cs = none ↔ sep ∉ cs := by
  induction cs with
  | nil => simp [cutAt?]
  | cons c cs ih =>
    rw [cutAt?, List.mem_cons, not_or]
    by_cases hc : c = sep
    · simp [hc]
    · rw [if_neg hc, Option.map_eq_none_iff, ih]
      exact (and_iff_right (Ne.symm hc)).symm

end Text

namespace Path

/-! ## Segments -/

/-- There is always a first segment. -/
theorem segments_ne_nil (p : String) : segments p ≠ [] := by
  rw [segments, ne_eq, List.map_eq_nil_iff]
  exact Text.splitAt_ne_nil _ _

/-- Nothing has one segment, which is nothing. -/
@[simp] theorem segments_empty : segments "" = [""] := rfl

/-- Paths with a slash between them have the segments of both. -/
theorem segments_append_slash (p q : String) : segments (p ++ "/" ++ q) = segments p ++ segments q := by
  have hslash : "/".toList = ['/'] := rfl
  rw [segments, String.toList_append, String.toList_append, hslash, List.append_assoc,
    List.singleton_append, Text.splitAt_append, List.map_append]
  rfl

/-- A slash at the start has an empty segment in front of it. -/
theorem segments_slash_append (p : String) : segments ("/" ++ p) = "" :: segments p := by
  have happend := segments_append_slash "" p
  rwa [String.empty_append] at happend

/-- A name has one segment. -/
theorem segments_of_not_mem {p : String} (h : '/' ∉ p.toList) : segments p = [p] := by
  rw [segments, Text.splitAt_of_not_mem h, List.map_singleton, String.ofList_toList]

/-- Names with slashes between them have these names as segments. -/
theorem segments_intercalate {names : List String} (hne : names ≠ [])
    (h : ∀ s ∈ names, '/' ∉ s.toList) : segments ("/".intercalate names) = names := by
  induction names with
  | nil => contradiction
  | cons s names ih =>
    have hs := segments_of_not_mem (h s List.mem_cons_self)
    cases names with
    | nil => exact hs
    | cons s' names =>
      have ih := ih (List.cons_ne_nil _ _) fun x hx => h x (List.mem_cons_of_mem _ hx)
      rw [String.intercalate_cons_cons, segments_append_slash, hs, ih]
      rfl

/-- No segment holds a slash. -/
theorem slash_not_mem_of_mem_segments {p s : String} (h : s ∈ segments p) : '/' ∉ s.toList := by
  obtain ⟨w, hw, rfl⟩ := List.mem_map.mp h
  rw [String.toList_ofList]
  exact Text.not_mem_of_mem_splitAt hw

/-- A path is absolute if something follows an empty first segment. -/
theorem isAbsolute_iff (p : String) :
    isAbsolute p = true ↔ ∃ s ss, segments p = "" :: s :: ss := by
  rw [isAbsolute, segments]
  cases p.toList with
  | nil => simp [Text.splitAt]
  | cons c cs =>
    obtain ⟨w, ws, hw⟩ := List.exists_cons_of_ne_nil (Text.splitAt_ne_nil '/' cs)
    by_cases hc : c = '/'
    · simp [hc, Text.splitAt, hw]
    · obtain ⟨v, vs, -, heq⟩ := Text.splitAt_cons_of_ne hc cs
      rw [heq]
      simp [hc]

/-! ## Names and paths that stay inside -/

/-- A name that a file or directory can have. -/
structure IsName (s : String) : Prop where
  ne : s ≠ "" ∧ s ≠ "." ∧ s ≠ ".."
  slash : '/' ∉ s.toList

instance (s : String) : Decidable (IsName s) :=
  decidable_of_iff ((s ≠ "" ∧ s ≠ "." ∧ s ≠ "..") ∧ '/' ∉ s.toList)
    ⟨fun ⟨ne, slash⟩ => ⟨ne, slash⟩, fun h => ⟨h.ne, h.slash⟩⟩

/-- A path that neither starts at the root nor ever leads upwards. -/
structure Inward (p : String) : Prop where
  relative : isAbsolute p = false
  inside : .up ∉ parts p

/-- A text with a character other than a dot means something. -/
theorem isName_of_mem {s : String} {c : Char} (hc : c ∈ s.toList) (hne : c ≠ '.')
    (hslash : '/' ∉ s.toList) : IsName s := by
  refine ⟨⟨?_, ?_, ?_⟩, hslash⟩ <;> rintro rfl <;> simp_all

/-- A name is a path of one part. -/
theorem IsName.parts_eq {s : String} (h : IsName s) : parts s = [.name s] := by
  have habsolute : isAbsolute s = false := by
    rw [Bool.eq_false_iff]
    intro habsolute
    obtain ⟨s', ss, hss⟩ := (isAbsolute_iff s).mp habsolute
    rw [segments_of_not_mem h.slash] at hss
    cases hss
  obtain ⟨hempty, hhere, hup⟩ := h.ne
  simp [parts, segments_of_not_mem h.slash, habsolute, part?, hempty, hhere, hup]

/-- A path leads upwards where one of its segments does. -/
theorem up_mem_parts_iff {p : String} : .up ∈ parts p ↔ ".." ∈ segments p := by
  -- only two dots are read as a step upwards, and what is put in front is none
  have hbody : .up ∈ (segments p).filterMap part? ↔ ".." ∈ segments p := by
    rw [List.mem_filterMap]
    constructor
    · rintro ⟨s, hs, hpart⟩
      rw [part?] at hpart
      split at hpart
      · cases hpart
      split at hpart
      next hup => exact hup ▸ hs
      next => cases hpart
    · exact fun hs => ⟨"..", hs, rfl⟩
  rw [parts]
  split
  · simpa using hbody
  split
  · simpa using hbody
  · exact hbody

/-- Names with slashes between them make a path that stays inside. -/
theorem inward_intercalate {names : List String} (hne : names ≠ []) (h : ∀ s ∈ names, IsName s) :
    Inward ("/".intercalate names) := by
  have hsegments := segments_intercalate hne fun s hs => (h s hs).slash
  constructor
  · rw [Bool.eq_false_iff]
    intro habsolute
    obtain ⟨s, ss, hss⟩ := (isAbsolute_iff _).mp habsolute
    rw [hsegments] at hss
    exact (h "" (hss ▸ List.mem_cons_self)).ne.1 rfl
  · rw [up_mem_parts_iff, hsegments]
    exact fun hmem => (h ".." hmem).ne.2.2 rfl

/-- A name is a path that stays inside. -/
theorem IsName.inward {s : String} (h : IsName s) : Inward s :=
  @inward_intercalate [s] (List.cons_ne_nil _ _) (List.forall_mem_singleton.mpr h)

/-! ## Joined paths -/

/-- What stands in front of a text decides whether it is absolute. -/
theorem isAbsolute_append {p : String} (hp : p ≠ "") (q : String) :
    isAbsolute (p ++ q) = isAbsolute p := by
  have hne : p.toList ≠ [] := fun h => hp (String.toList_eq_nil_iff.mp h)
  obtain ⟨c, cs, hcs⟩ := List.exists_cons_of_ne_nil hne
  rw [isAbsolute, isAbsolute, String.toList_append, hcs]
  rfl

/-- A relative path below a directory has the segments of the directory and then its own.  Where the
directory ends with a slash, the empty segment behind that slash is gone. -/
theorem exists_segments_join (dir : String) {p : String} (hp : isAbsolute p = false) :
    isAbsolute (join dir p) = isAbsolute dir ∧ ∃ ds, segments (join dir p) = ds ++ segments p ∧
      (segments dir = ds ∨ segments dir = ds ++ [""]) := by
  rw [join, hp, Bool.false_or]
  by_cases hdir : dir = ""
  · rw [hdir]
    exact ⟨hp, [], rfl, .inr rfl⟩
  rw [if_neg (by simpa using hdir)]
  split
  -- a slash at the end ends an empty segment, which joining does not keep
  next hend =>
    obtain ⟨ds, hds⟩ := List.getLast?_eq_some_iff.mp hend
    obtain rfl : dir = String.ofList ds ++ "/" := by
      rw [← String.toList_inj, hds, String.toList_append, String.toList_ofList]
      rfl
    refine ⟨isAbsolute_append hdir p, segments (String.ofList ds), segments_append_slash _ _, .inr ?_⟩
    have hlast := segments_append_slash (String.ofList ds) ""
    rwa [String.append_empty, segments_empty] at hlast
  next =>
    refine ⟨?_, segments dir, segments_append_slash dir p, .inl rfl⟩
    rw [String.append_assoc]
    exact isAbsolute_append hdir _

/-! ## Parents -/

/-- What is trimmed stands at the end. -/
theorem trimSegments_isPrefix (ss : List String) : trimSegments ss <+: ss := by
  have hsuffix := List.dropWhile_suffix (fun s => (part? s).isNone) (l := ss.reverse)
  rw [← List.reverse_prefix, List.reverse_reverse] at hsuffix
  exact hsuffix

/-- The body of a parent. -/
theorem trimSegments_dropLast_isPrefix (ss : List String) :
    trimSegments (trimSegments ss).dropLast <+: ss :=
  (trimSegments_isPrefix _).trans ((List.dropLast_prefix _).trans (trimSegments_isPrefix ss))

/-- The first segments of a path, with slashes between them. -/
theorem segments_intercalate_of_isPrefix {ns : List String} {p : String} (h : ns <+: segments p)
    (hne : ns ≠ []) : segments ("/".intercalate ns) = ns :=
  segments_intercalate hne fun _ hs => slash_not_mem_of_mem_segments (h.subset hs)

/-- A path is absolute, or it starts with a dot as its first segment, or neither. -/
theorem head_cases (p : String) :
    (∃ r, p = "/" ++ r ∧ head p = "/") ∨ (p = "." ∧ head p = ".") ∨
      (∃ r, p = "." ++ "/" ++ r ∧ head p = ".") ∨ (isAbsolute p = false ∧ head p = "") := by
  rw [head]
  split
  next r hp => exact .inl ⟨String.ofList r, by rw [← String.toList_inj, hp]; simp, rfl⟩
  next hp => exact .inr (.inl ⟨String.toList_inj.mp hp, rfl⟩)
  next r hp => exact .inr (.inr (.inl ⟨String.ofList r, by rw [← String.toList_inj, hp]; simp, rfl⟩))
  next hslash _ _ =>
    refine .inr (.inr (.inr ⟨?_, rfl⟩))
    rw [isAbsolute]
    cases hp : p.toList with
    | nil => rfl
    | cons c cs => simpa using fun hc => hslash cs (by rw [hp, hc])

/-- A path that another one starts with, up to an empty segment at the end. -/
structure StartOf (q p : String) : Prop where
  isAbsolute_eq : isAbsolute q = isAbsolute p
  first : ∃ ds, ds <+: segments p ∧ (segments q = ds ∨ segments q = ds ++ [""])

variable {ns : List String} {p q r : String}

/-- The first segments of an absolute path, behind its slash. -/
theorem startOf_slash_append (h : ns <+: segments r) :
    StartOf ("/" ++ "/".intercalate ns) ("/" ++ r) := by
  refine ⟨(isAbsolute_append (by decide) _).trans (isAbsolute_append (by decide) _).symm, ?_⟩
  rw [segments_slash_append, segments_slash_append]
  by_cases hns : ns = []
  · -- only the root is left, which ends with a slash
    exact ⟨[""], ⟨segments r, rfl⟩, .inr (by rw [hns]; rfl)⟩
  · rw [segments_intercalate_of_isPrefix h hns]
    exact ⟨"" :: ns, (List.prefix_cons_inj "").mpr h, .inl rfl⟩

/-- The first segments behind a dot, which start with the empty one between the dot and the slash. -/
theorem startOf_dot_append (h : ns <+: segments ("/" ++ r)) :
    StartOf ("." ++ "/".intercalate ns) ("." ++ "/" ++ r) := by
  rw [segments_slash_append] at h
  have hstart : isAbsolute ("." ++ "/".intercalate ns) = isAbsolute ("." ++ "/" ++ r) := by
    rw [String.append_assoc, isAbsolute_append (by decide), isAbsolute_append (by decide)]
  refine ⟨hstart, ?_⟩
  rw [segments_append_slash]
  cases ns with
  | nil => exact ⟨["."], ⟨segments r, rfl⟩, .inl rfl⟩
  | cons s ms =>
    obtain ⟨rfl, hmore⟩ := List.cons_prefix_cons.mp h
    -- the name behind the slash is the last one, or there is another slash
    by_cases hms : ms = []
    · rw [hms]
      exact ⟨["."], ⟨segments r, rfl⟩, .inl rfl⟩
    · have hcons : "/".intercalate ("" :: ms) = "/" ++ "/".intercalate ms := by
        obtain ⟨m, ms, rfl⟩ := List.exists_cons_of_ne_nil hms
        rw [String.intercalate_cons_cons, String.empty_append]
      rw [hcons, ← String.append_assoc, segments_append_slash,
        segments_intercalate_of_isPrefix hmore hms]
      exact ⟨"." :: ms, (List.prefix_cons_inj ".").mpr hmore, .inl rfl⟩

/-- The first segments of a relative path. -/
theorem startOf_intercalate (hp : isAbsolute p = false) (h : ns <+: segments p) (hne : ns ≠ []) :
    StartOf ("/".intercalate ns) p := by
  have hsegments := segments_intercalate_of_isPrefix h hne
  refine ⟨?_, ns, h, .inl hsegments⟩
  rw [hp, Bool.eq_false_iff]
  intro habsolute
  obtain ⟨s, ss, hss⟩ := (isAbsolute_iff _).mp habsolute
  obtain ⟨rest, hrest⟩ := h
  rw [← hsegments, hss] at hrest
  exact Bool.eq_false_iff.mp hp ((isAbsolute_iff p).mpr ⟨s, ss ++ rest, hrest.symm⟩)

/-- A path starts with its parent. -/
theorem startOf_of_parent? (h : parent? p = some q) (hq : q ≠ "") : StartOf q p := by
  rw [parent?] at h
  split at h
  next =>
    split at h
    · exact absurd (Option.some.inj h).symm hq
    · cases h
  next hbody =>
    have hprefix := trimSegments_dropLast_isPrefix
      (segments (String.ofList (p.toList.drop (head p).length)))
    generalize trimSegments (trimSegments _).dropLast = ns at h hprefix
    obtain rfl := Option.some.inj h
    -- what stands behind the head depends on what the path starts with
    obtain ⟨r, rfl, hhead⟩ | ⟨rfl, -⟩ | ⟨r, rfl, hhead⟩ | ⟨hrelative, hhead⟩ := head_cases p
    · have hrest : String.ofList (("/" ++ r).toList.drop (head ("/" ++ r)).length) = r := by
        rw [hhead, String.toList_append]
        exact String.ofList_toList
      rw [hrest] at hprefix
      rw [hhead]
      exact startOf_slash_append hprefix
    · exact absurd (by decide) hbody
    · have hrest : String.ofList (("." ++ "/" ++ r).toList.drop (head ("." ++ "/" ++ r)).length) =
          "/" ++ r := by
        rw [hhead, String.append_assoc, String.toList_append]
        exact String.ofList_toList
      rw [hrest] at hprefix
      rw [hhead]
      exact startOf_dot_append hprefix
    · have hrest : String.ofList (p.toList.drop (head p).length) = p := by
        rw [hhead]
        exact String.ofList_toList
      rw [hrest] at hprefix
      rw [hhead, String.empty_append] at hq ⊢
      refine startOf_intercalate hrelative hprefix ?_
      rintro rfl
      exact hq rfl

/-- A path below a directory starts with the directory. -/
theorem startOf_join (dir : String) (hp : isAbsolute p = false) : StartOf dir (join dir p) := by
  obtain ⟨hstart, ds, hjoin, hds⟩ := exists_segments_join dir hp
  exact ⟨hstart.symm, ds, hjoin ▸ List.prefix_append ds _, hds⟩

end Path

end Promptwright
