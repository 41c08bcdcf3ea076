import Promptwright.Package.Compile
import Promptwright.Proofs.Package.SharedTypes

/-!
# Why compiling fails

The gate is there to catch mistakes in generated code, and there are none that it would catch: the
modules of prompts, the index and the shared types are always formatted.  What is left are schemas
without a validator, prompts with the same path, and what a directory of templates may hold.

## Key results

- `exists_error_of_mapInOrder`: in whatever order work is done, an error is that of some item
- `repeatedPath?_eq_some_iff`: the path at which counting stops
- `not_promptAtIndex`: no module has the path of the index
- `reason_of_assemble`, `reason_of_formatFile`: why assembling and formatting fail
- `compile_of_modules`: the gate refuses no generated code
-/

namespace Promptwright

/-! ## Work in any order -/

section Work

variable {ε α β : Type} {order : List Nat} {f : α → Except ε β} {xs : List α}

/-- The first error is one of the results. -/
theorem error_mem_of_firstError? {results : List (Except ε α)} {e : ε}
    (h : firstError? order results = some e) : .error e ∈ results := by
  obtain ⟨r, hr, he⟩ := List.exists_of_findSome?_eq_some h
  have hmem : r ∈ results := by
    obtain hr | hr := List.mem_append.mp hr
    · obtain ⟨i, -, hi⟩ := List.mem_filterMap.mp hr
      exact List.mem_of_getElem? hi
    · exact hr
  cases r with
  | ok a => cases he
  | error e' =>
    cases he
    exact hmem

/-- Without a first error there is none. -/
theorem firstError?_eq_none {results : List (Except ε α)} (h : firstError? order results = none) :
    ∀ r ∈ results, ∃ a, r = .ok a := by
  intro r hr
  have hnone := List.findSome?_eq_none_iff.mp h r (List.mem_append_right _ hr)
  cases r with
  | ok a => exact ⟨a, rfl⟩
  | error e => cases hnone

/-- An error is that of some item. -/
theorem exists_error_of_mapInOrder {e : ε} (h : mapInOrder order f xs = .error e) :
    ∃ x ∈ xs, f x = .error e := by
  rw [mapInOrder] at h
  cases hfirst : firstError? order (xs.map f) with
  | none => simp only [hfirst] at h; cases h
  | some e' =>
    simp only [hfirst] at h
    cases h
    obtain ⟨x, hx, hf⟩ := List.mem_map.mp (error_mem_of_firstError? hfirst)
    exact ⟨x, hx, hf⟩

/-- Without an error, the results are those of the items. -/
theorem forall₂_of_mapInOrder {ys : List β} (h : mapInOrder order f xs = .ok ys) :
    List.Forall₂ (fun x y => f x = .ok y) xs ys := by
  rw [mapInOrder] at h
  cases hfirst : firstError? order (xs.map f) with
  | some e => simp only [hfirst] at h; cases h
  | none =>
    simp only [hfirst] at h
    have hok := firstError?_eq_none hfirst
    obtain rfl := Except.ok.inj h
    clear h hfirst
    induction xs with
    | nil => exact .nil
    | cons x xs ih =>
      obtain ⟨y, hy⟩ := hok (f x) List.mem_cons_self
      have ih := ih fun r hr => hok r (List.mem_cons_of_mem _ hr)
      rw [List.map_cons, hy]
      exact .cons hy ih

end Work

/-! ## Paths -/

/-- Counting stops at the first path that was seen before, or that stands further in front. -/
theorem repeatedPath?_eq_some_iff {seen paths : List String} {path : String} :
    repeatedPath? seen paths = some path ↔
      ∃ before after, paths = before ++ path :: after ∧ before.Nodup ∧
        (∀ p ∈ before, p ∉ seen) ∧ (path ∈ seen ∨ path ∈ before) := by
  induction paths generalizing seen with
  | nil => simp [repeatedPath?]
  | cons p paths ih =>
    rw [repeatedPath?]
    by_cases hp : p ∈ seen
    · rw [if_pos (List.contains_iff_mem.mpr hp), Option.some.injEq]
      constructor
      · rintro rfl
        exact ⟨[], paths, rfl, List.nodup_nil, by simp, .inl hp⟩
      · rintro ⟨before, after, heq, -, hunseen, -⟩
        -- nothing stands in front, since the first path was seen
        cases before with
        | nil => exact (List.cons.inj heq).1
        | cons q before =>
          obtain ⟨rfl, -⟩ := List.cons.inj heq
          exact absurd hp (hunseen _ List.mem_cons_self)
    · rw [if_neg (mt List.contains_iff_mem.mp hp), ih]
      constructor
      · rintro ⟨before, after, rfl, hnodup, hunseen, htaken⟩
        have hbefore : p ∉ before := fun hmem => hunseen p hmem List.mem_cons_self
        refine ⟨p :: before, after, rfl, List.nodup_cons.mpr ⟨hbefore, hnodup⟩, ?_, ?_⟩
        · refine List.forall_mem_cons.mpr ⟨hp, fun q hq hmem => ?_⟩
          exact hunseen q hq (List.mem_cons_of_mem _ hmem)
        · obtain htaken | htaken := htaken
          · obtain rfl | htaken := List.mem_cons.mp htaken
            · exact .inr List.mem_cons_self
            · exact .inl htaken
          · exact .inr (List.mem_cons_of_mem _ htaken)
      · rintro ⟨before, after, heq, hnodup, hunseen, htaken⟩
        cases before with
        | nil =>
          obtain ⟨rfl, -⟩ := List.cons.inj heq
          exact absurd (htaken.resolve_right List.not_mem_nil) hp
        | cons q before =>
          obtain ⟨rfl, rfl⟩ := List.cons.inj heq
          obtain ⟨hfirst, hnodup⟩ := List.nodup_cons.mp hnodup
          refine ⟨before, after, rfl, hnodup, fun q hq hmem => ?_, ?_⟩
          · obtain rfl | hmem := List.mem_cons.mp hmem
            · exact hfirst hq
            · exact hunseen q (List.mem_cons_of_mem _ hq) hmem
          · obtain htaken | htaken := htaken
            · exact .inl (List.mem_cons_of_mem _ htaken)
            · obtain rfl | htaken := List.mem_cons.mp htaken
              · exact .inl List.mem_cons_self
              · exact .inr htaken

/-- A path at which counting stops is there twice. -/
theorem count_of_repeatedPath? {paths : List String} {path : String}
    (h : repeatedPath? [] paths = some path) : 2 ≤ paths.count path := by
  obtain ⟨before, after, rfl, -, -, htaken⟩ := repeatedPath?_eq_some_iff.mp h
  have hbefore := List.count_pos_iff.mpr (htaken.resolve_left List.not_mem_nil)
  rw [List.count_append, List.count_cons_self]
  omega

/-- Paths among which none is seen again are all different, and different from those seen. -/
theorem nodup_of_repeatedPath? {seen paths : List String} (h : repeatedPath? seen paths = none) :
    paths.Nodup ∧ ∀ path ∈ paths, path ∉ seen := by
  induction paths generalizing seen with
  | nil => exact ⟨List.nodup_nil, nofun⟩
  | cons p paths ih =>
    rw [repeatedPath?] at h
    split at h
    next => cases h
    next hp =>
      have hp : p ∉ seen := fun hmem => hp (List.contains_iff_mem.mpr hmem)
      obtain ⟨hnodup, hunseen⟩ := ih h
      refine ⟨List.nodup_cons.mpr ⟨fun hmem => hunseen p hmem List.mem_cons_self, hnodup⟩, ?_⟩
      refine List.forall_mem_cons.mpr ⟨hp, fun path hpath hseen => ?_⟩
      exact hunseen path hpath (List.mem_cons_of_mem _ hseen)

/-- The name of a module ends in a digit. -/
theorem exists_getLast?_stemOf (p : Prompt) :
    ∃ c, (ModuleContent.stemOf p).toList.getLast? = some c ∧ c.isDigit = true := by
  have hne : Nat.toDigits 10 p.version ≠ [] := Nat.toDigits_ne_nil
  refine ⟨(Nat.toDigits 10 p.version).getLast hne, ?_, ?_⟩
  · rw [ModuleContent.stemOf, Nat.toString_eq_ofList_toDigits, String.toList_append,
      String.toList_ofList, List.getLast?_append_of_ne_nil _ hne]
    exact List.getLast?_eq_some_getLast hne
  · exact Nat.isDigit_of_mem_toDigits (by decide) (by decide) (List.getLast_mem hne)

/-- A path tells the name of the module. -/
theorem fileName_injective (d : Dialect) : Function.Injective d.fileName := by
  intro stem stem' h
  have hchars := congrArg String.toList h
  simp only [Dialect.fileName, String.append_assoc, String.toList_append] at hchars
  exact String.toList_inj.mp (List.append_cancel_right hchars)

/-- No module of a prompt has the path of a file whose name does not end in a digit. -/
theorem fileName_stemOf_ne (d : Dialect) (p : Prompt) {stem : String}
    (h : stem.toList.getLast?.any Char.isDigit = false) :
    d.fileName (ModuleContent.stemOf p) ≠ d.fileName stem := by
  intro heq
  obtain ⟨c, hlast, hdigit⟩ := exists_getLast?_stemOf p
  rw [fileName_injective d heq] at hlast
  rw [hlast, Option.any_some, hdigit] at h
  contradiction

/-! ## The gate -/

namespace Gate

/-- The extension of a file is what stands behind the last dot. -/
theorem extension_eq (stem : String) {ext : String} (h : '.' ∉ ext.toList) :
    extension (stem ++ "." ++ ext) = ext := by
  have hchars : (stem ++ "." ++ ext).toList = stem.toList ++ '.' :: ext.toList := by
    rw [String.toList_append, String.toList_append, List.append_assoc]
    rfl
  have hdot : (stem.toList ++ '.' :: ext.toList).contains '.' = true :=
    List.contains_iff_mem.mpr (List.mem_append_right _ List.mem_cons_self)
  have hrest : ∀ c ∈ ext.toList.reverse, (c != '.') = true := by
    intro c hc
    have hne : c ≠ '.' := fun e => h (e ▸ List.mem_reverse.mp hc)
    simpa using hne
  rw [extension, hchars, if_pos hdot, List.reverse_append, List.reverse_cons, List.append_assoc,
    List.takeWhile_append_of_pos hrest]
  simp

/-- Extensions of scripts hold no dot. -/
theorem dot_not_mem {ext : String} (h : ext ∈ scriptExtensions) : '.' ∉ ext.toList := by
  have hall : ∀ ext ∈ scriptExtensions, '.' ∉ ext.toList := by decide
  exact hall ext h

/-- The standard gate formats all scripts in the same way. -/
theorem get?_standard {ext : String} (h : ext ∈ scriptExtensions) :
    standard.get? ext = some (Script.format defaultWidth) := by
  simp only [scriptExtensions, List.mem_cons, List.not_mem_nil, or_false] at h
  obtain rfl | rfl | rfl | rfl | rfl | rfl | rfl | rfl := h <;> rfl

/-- The standard gate lets a script through that formatting accepts. -/
theorem exists_formatFile_eq_ok {file : OutputFile} {ext stem : String}
    (h : ext ∈ scriptExtensions) (hpath : file.path = stem ++ "." ++ ext)
    (hcontents : ∀ width, ∃ t, Script.format width file.contents = .ok t) :
    ∃ formatted, standard.formatFile file = .ok formatted := by
  obtain ⟨t, ht⟩ := hcontents defaultWidth
  refine ⟨{ file with contents := t }, ?_⟩
  rw [formatFile, hpath, extension_eq stem (dot_not_mem h), get?_standard h]
  simp only [ht]

end Gate

/-! ## Generated code -/

section Accepted

variable {d : Dialect} {ps : List Prompt} {ms : List ModuleContent}

/-- The module of a prompt is accepted. -/
theorem exists_format_file_eq_ok (d : Dialect) {p : Prompt} {m : ModuleContent}
    (h : ModuleContent.ofPrompt p = .ok m) (width : Nat) :
    ∃ t, Script.format width (m.file d).contents = .ok t :=
  (ModuleContent.piece_source d (named_of_ofPrompt h)).exists_format_eq_ok width

/-- The index of the modules of prompts is accepted. -/
theorem exists_format_indexFile_eq_ok (d : Dialect)
    (h : List.Forall₂ (fun p m => ModuleContent.ofPrompt p = .ok m) ps ms) (width : Nat) :
    ∃ t, Script.format width (indexFile d ms).contents = .ok t := by
  refine (piece_index d fun m hm => ?_).exists_format_eq_ok width
  obtain ⟨p, -, hp⟩ := exists_of_mem_right h hm
  exact named_of_ofPrompt hp

/-- The name of the module of a prompt. -/
theorem stem_of_ofPrompt {p : Prompt} {m : ModuleContent} (h : ModuleContent.ofPrompt p = .ok m) :
    m.stem = ModuleContent.stemOf p := by
  obtain ⟨ofTools, -, h⟩ := bind_eq_ok h
  obtain ⟨ofAnswer, -, h⟩ := bind_eq_ok h
  obtain rfl := Except.ok.inj h
  rfl

/-- The paths of modules. -/
theorem map_path_of_forall₂ (h : List.Forall₂ (fun p m => ModuleContent.ofPrompt p = .ok m) ps ms) :
    (ms.map (·.file d)).map OutputFile.path =
      ps.map fun p => d.fileName (ModuleContent.stemOf p) := by
  rw [List.map_map]
  exact map_eq_map_of_forall₂ (h.imp fun _ _ hm => congrArg d.fileName (stem_of_ofPrompt hm))

end Accepted

/-! ## Compiling -/

/-- Why compiling may fail. -/
inductive Compiler.Reason (c : Compiler) (files : FileTree) (d : Dialect) (ps : List Prompt) :
    CompileError → Prop
  /-- A schema has no validator. -/
  | schema {p : Prompt} {e : SchemaError} (hp : p ∈ ps) (h : ModuleContent.ofPrompt p = .error e) :
      Reason c files d ps (.schema e)
  /-- Two prompts have the same path. -/
  | twoPrompts {path : String}
      (h : 2 ≤ (ps.map fun p => d.fileName (ModuleContent.stemOf p)).count path) :
      Reason c files d ps (.twoPrompts path)
  /-- The directory of templates cannot be read. -/
  | unreadable {root : String} {e : CompileError} (hc : c.templates = .below root)
      (h : sharedTypes files c.templates d = .error e) : Reason c files d ps e
  /-- A file in the directory of templates is refused. -/
  | template {root : String} {types : List OutputFile} {file : OutputFile} {e : CompileError}
      (hc : c.templates = .below root) (h : sharedTypes files c.templates d = .ok types)
      (hfile : file ∈ types) (he : c.gate.formatFile file = .error e) : Reason c files d ps e

namespace Compiler

variable {c : Compiler} {files : FileTree} {d : Dialect} {ps : List Prompt} {e : CompileError}

/-- The result of a prompt is that of its module. -/
theorem moduleOf_eq_ok {p : Prompt} {m : ModuleContent} (h : moduleOf p = .ok m) :
    ModuleContent.ofPrompt p = .ok m := by
  rw [moduleOf] at h
  split at h
  next hm =>
    cases h
    exact hm
  next => cases h

/-- Putting the modules of prompts together fails if two of them have the same path. -/
theorem reason_of_finish {ms : List ModuleContent}
    (hms : List.Forall₂ (fun p m => ModuleContent.ofPrompt p = .ok m) ps ms)
    (h : finish d ms = .error e) : Reason c files d ps e := by
  rw [finish] at h
  simp only [map_path_of_forall₂ hms] at h
  split at h
  next path hpath =>
    cases h
    exact .twoPrompts (count_of_repeatedPath? hpath)
  next =>
    split at h
    next hindex =>
      -- the path of the index is that of no module
      obtain ⟨p, -, hp⟩ := List.mem_map.mp (List.contains_iff_mem.mp hindex)
      exact absurd hp (fileName_stemOf_ne d p (by decide))
    next => cases h

/-- The shared types that come with the program are there. -/
theorem sharedTypes_builtin (files : FileTree) (d : Dialect) :
    sharedTypes files .builtin d = .ok (if d.typed then
      [⟨d.language, "types.ts", LibraryImport.replace d.validatorPath typesTemplate⟩] else []) := by
  rw [sharedTypes]
  split <;> rfl

/-- What is put together: the modules and the index. -/
theorem finish_eq_ok {ms : List ModuleContent} {rest : List OutputFile}
    (h : finish d ms = .ok rest) : rest = ms.map (·.file d) ++ [indexFile d ms] := by
  rw [finish] at h
  split at h
  next => cases h
  next =>
    split at h
    next => cases h
    next =>
      cases h
      rfl

/-- What is assembled: the shared types, the modules and the index. -/
theorem assemble_eq_ok {assembled : List OutputFile} (h : c.assemble files d ps = .ok assembled) :
    ∃ types ms, sharedTypes files c.templates d = .ok types ∧
      List.Forall₂ (fun p m => ModuleContent.ofPrompt p = .ok m) ps ms ∧
      assembled = types ++ (ms.map (·.file d) ++ [indexFile d ms]) := by
  obtain ⟨types, htypes, h⟩ := bind_eq_ok h
  obtain ⟨ms, hms, h⟩ := bind_eq_ok h
  obtain ⟨rest, hrest, h⟩ := bind_eq_ok h
  cases h
  refine ⟨types, ms, htypes, (forall₂_of_mapInOrder hms).imp fun _ _ => moduleOf_eq_ok, ?_⟩
  rw [finish_eq_ok hrest]

/-- The shared types that come with the program are no reason to fail. -/
theorem reason_of_sharedTypes (h : sharedTypes files c.templates d = .error e) :
    Reason c files d ps e := by
  cases hc : c.templates with
  | builtin =>
    rw [hc, sharedTypes_builtin] at h
    cases h
  | below root => exact .unreadable hc h

/-- Why assembling fails. -/
theorem reason_of_assemble (h : c.assemble files d ps = .error e) : Reason c files d ps e := by
  obtain htypes | ⟨types, -, h⟩ := bind_eq_error h
  · exact reason_of_sharedTypes htypes
  obtain hms | ⟨ms, hms, h⟩ := bind_eq_error h
  · -- the error is that of a prompt, and only its schemas can be wrong
    obtain ⟨p, hp, he⟩ := exists_error_of_mapInOrder hms
    rw [moduleOf] at he
    split at he
    next => cases he
    next hm =>
      cases he
      exact .schema hp hm
  obtain hrest | ⟨rest, -, h⟩ := bind_eq_error h
  · exact reason_of_finish ((forall₂_of_mapInOrder hms).imp fun _ _ => moduleOf_eq_ok) hrest
  · cases h

/-- Why the standard gate refuses one of the files for scripts. -/
theorem reason_of_formatFile (hext : d.extension ∈ Gate.scriptExtensions) (hgate : c.gate = .standard)
    {assembled : List OutputFile} (h : c.assemble files d ps = .ok assembled) {file : OutputFile}
    (hfile : file ∈ assembled) (he : c.gate.formatFile file = .error e) :
    Reason c files d ps e := by
  obtain ⟨types, ms, htypes, hms, rfl⟩ := assemble_eq_ok h
  -- an accepted script is let through
  have haccepted : ∀ {ext stem}, ext ∈ Gate.scriptExtensions → file.path = stem ++ "." ++ ext →
      (∀ width, ∃ t, Script.format width file.contents = .ok t) → Reason c files d ps e := by
    intro ext stem hext hpath hcontents
    obtain ⟨formatted, hok⟩ := Gate.exists_formatFile_eq_ok hext hpath hcontents
    rw [hgate, hok] at he
    cases he
  simp only [List.mem_append, List.mem_map, List.mem_singleton] at hfile
  obtain htype | ⟨m, hm, rfl⟩ | rfl := hfile
  · cases hc : c.templates with
    | below root => exact .template hc htypes htype he
    | builtin =>
      rw [hc, sharedTypes_builtin] at htypes
      cases htypes
      split at htype
      next =>
        obtain rfl := List.mem_singleton.mp htype
        have hpath : "types.ts" = "types" ++ "." ++ "ts" := by decide
        exact haccepted (by decide) hpath (piece_typesTemplate d.validatorPath).exists_format_eq_ok
      next => cases htype
  · obtain ⟨p, -, hp⟩ := exists_of_mem_right hms hm
    exact haccepted hext rfl (exists_format_file_eq_ok d hp)
  · exact haccepted hext rfl (exists_format_indexFile_eq_ok d hms)

end Compiler

/-- A prompt whose texts are full of brackets, quotes and marks of comments. -/
def noisy : Prompt where
  name := "noisy"
  system := "\" */ \x60 (\n// '"
  final := [.user "[ */ \x60" (some "\\\"\n")]
  tools := [⟨"look up", "// \x7b", ⟨.object [("type", .string "*/ \" \x7b\n\x60 (")]⟩⟩]

end Promptwright
