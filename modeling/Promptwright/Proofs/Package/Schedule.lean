import Promptwright.Proofs.Package.Compile
import Promptwright.Proofs.Script.Reformat

/-!
# Compiling with one worker or with many

Many workers finish in any order; a single one does its items one by one and stops at the first
error.  The files of a package do not depend on that: they are there or not, and are the same.  Only
an error may be another one, but it comes up in the same phase, since a phase starts when all of the
one before it is done.

## Key results

- `mapInOrder_eq_ok_iff`, `mapM_eq_ok_iff`: results do not depend on the order of work
- `exists_mapInOrder_eq_error_iff`: with many workers, the error of every item may come first
- `Compiler.Fails.failingPhase?_eq`: errors come up in one phase only
- `Compiler.compile_in_any_order`: what is compiled in any order
-/

namespace Promptwright

/-! ## Work in any order -/

section Work

variable {ε α β : Type} {order : List Nat} {f : α → Except ε β} {xs : List α} {e : ε}

/-- A list of results without errors has no first error. -/
theorem firstError?_eq_none_of_forall {results : List (Except ε α)}
    (h : ∀ r ∈ results, ∃ a, r = .ok a) : firstError? order results = none := by
  cases hfirst : firstError? order results with
  | none => rfl
  | some e =>
    obtain ⟨a, ha⟩ := h _ (error_mem_of_firstError? hfirst)
    cases ha

/-- In whatever order work is done, all results are there exactly if no item fails. -/
theorem mapInOrder_eq_ok_iff {ys : List β} :
    mapInOrder order f xs = .ok ys ↔ List.Forall₂ (fun x y => f x = .ok y) xs ys := by
  refine ⟨forall₂_of_mapInOrder, fun h => ?_⟩
  -- without an error there is no first error
  have hfirst : firstError? order (xs.map f) = none := by
    refine firstError?_eq_none_of_forall fun r hr => ?_
    obtain ⟨x, hx, rfl⟩ := List.mem_map.mp hr
    obtain ⟨y, -, hy⟩ := exists_of_mem_left h hx
    exact ⟨y, hy⟩
  have hresults : (xs.map f).filterMap Except.toOption = ys := by
    clear hfirst
    induction h with
    | nil => rfl
    | @cons x y xs ys hy _ ih =>
      have htail : (xs.map f).filterMap Except.toOption = ys := ih
      rw [List.map_cons, hy, ← htail]
      rfl
  rw [mapInOrder]
  simp only [hfirst, hresults]

/-- The same holds of work that is done one by one. -/
theorem mapM_eq_ok_iff {ys : List β} :
    xs.mapM f = .ok ys ↔ List.Forall₂ (fun x y => f x = .ok y) xs ys := by
  refine ⟨mapM_eq_ok, fun h => ?_⟩
  induction h with
  | nil => rfl
  | cons hy _ ih =>
    rw [List.mapM_cons, hy, ih]
    rfl

/-- One by one, the error is that of some item. -/
theorem exists_error_of_mapM (h : xs.mapM f = .error e) : ∃ x ∈ xs, f x = .error e := by
  induction xs with
  | nil => cases h
  | cons x xs ih =>
    rw [List.mapM_cons] at h
    obtain hx | ⟨y, -, h⟩ := bind_eq_error h
    · exact ⟨x, List.mem_cons_self, hx⟩
    obtain hxs | ⟨ys, -, h⟩ := bind_eq_error h
    · obtain ⟨x', hx', he⟩ := ih hxs
      exact ⟨x', List.mem_cons_of_mem _ hx', he⟩
    · cases h

/-- An item whose turn is first gives its error. -/
theorem mapInOrder_singleton {i : Nat} (h : (xs.map f)[i]? = some (.error e)) :
    mapInOrder [i] f xs = .error e := by
  rw [mapInOrder, firstError?, List.filterMap_cons_some h]
  rfl

/-- In some order, the error of an item comes first, and no other errors do. -/
theorem exists_mapInOrder_eq_error_iff :
    (∃ order, mapInOrder order f xs = .error e) ↔ ∃ x ∈ xs, f x = .error e := by
  refine ⟨fun ⟨_, h⟩ => exists_error_of_mapInOrder h, fun ⟨x, hx, he⟩ => ?_⟩
  obtain ⟨i, hi⟩ := List.mem_iff_getElem?.mp hx
  refine ⟨[i], mapInOrder_singleton ?_⟩
  rw [List.getElem?_map, hi, Option.map_some, he]

end Work

/-! ## Formatting -/

/-- What has been formatted stays as it is. -/
theorem Script.format_eq_self {width : Nat} {source target : String}
    (h : Script.format width source = .ok target) : Script.format width target = .ok target := by
  obtain ⟨cs, hcs, rfl⟩ := map_eq_ok h
  obtain ⟨cs', hsource, hcopy⟩ := Script.formatChars_formatChars hcs width
  rw [hcs] at hsource
  cases hsource
  rw [Script.format, String.toList_ofList, hcopy]
  rfl

namespace Gate

variable {g : Gate} {file formatted : OutputFile}

/-- Formatting puts the formatted contents in place of the others. -/
theorem formatFile_eq_ok (h : g.formatFile file = .ok formatted) :
    ∃ f, g.get? (extension file.path) = some f ∧ f file.contents = .ok formatted.contents ∧
      formatted = { file with contents := formatted.contents } := by
  rw [formatFile] at h
  split at h
  next => cases h
  next f hf =>
    split at h
    next contents hcontents =>
      cases h
      exact ⟨f, hf, hcontents, rfl⟩
    next => cases h

/-- The standard gate has no other formatters than the one for scripts. -/
theorem eq_format_of_get?_standard {ext : String} {f : Formatter}
    (h : standard.get? ext = some f) : f = Script.format defaultWidth := by
  have hall : ∀ e ∈ standard.formatters, e.2 = Script.format defaultWidth := by
    have hlist : standard.formatters =
        scriptExtensions.reverse.map fun ext => (ext, Script.format defaultWidth) := rfl
    rw [hlist]
    simp
  obtain ⟨pre, post, hsplit, -⟩ := List.lookup_eq_some_iff.mp h
  exact hall (ext, f) (hsplit ▸ List.mem_append_right _ List.mem_cons_self)

/-- The standard gate leaves what it has formatted as it is. -/
theorem standard_formatFile_eq_self (h : standard.formatFile file = .ok formatted) :
    ∃ f, standard.get? (extension formatted.path) = some f ∧
      f formatted.contents = .ok formatted.contents := by
  obtain ⟨f, hget, hf, heq⟩ := formatFile_eq_ok h
  refine ⟨f, ?_, ?_⟩
  · rw [heq]
    exact hget
  · obtain rfl := eq_format_of_get?_standard hget
    exact Script.format_eq_self hf

end Gate

/-! ## Compiling -/

/-- The phases of compiling.  Within a phase, items are worked on in any order. -/
inductive Phase
  | templates
  | generation
  | paths
  | formatting
deriving DecidableEq, Repr

namespace Compiler

/-- All files for some prompts, by a worker that takes prompts and files one by one and stops at
the first error. -/
def compileOneByOne (c : Compiler) (files : FileTree) (d : Dialect) (ps : List Prompt) :
    Except CompileError (List OutputFile) := do
  let types ← sharedTypes files c.templates d
  let modules ← ps.mapM moduleOf
  let rest ← finish d modules
  (types ++ rest).mapM c.gate.formatFile

/-- An error comes up in a phase, after all phases before it went well: it is that of some prompt
or file where there are many of them. -/
inductive Fails (c : Compiler) (files : FileTree) (d : Dialect) (ps : List Prompt) :
    Phase → CompileError → Prop
  | templates {e : CompileError} (h : sharedTypes files c.templates d = .error e) :
      Fails c files d ps .templates e
  | generation {types : List OutputFile} {p : Prompt} {e : CompileError}
      (htypes : sharedTypes files c.templates d = .ok types)
      (hp : p ∈ ps) (h : moduleOf p = .error e) : Fails c files d ps .generation e
  | paths {types : List OutputFile} {ms : List ModuleContent} {e : CompileError}
      (htypes : sharedTypes files c.templates d = .ok types)
      (hms : List.Forall₂ (fun p m => moduleOf p = .ok m) ps ms)
      (h : finish d ms = .error e) : Fails c files d ps .paths e
  | formatting {types : List OutputFile} {ms : List ModuleContent} {rest : List OutputFile}
      {file : OutputFile} {e : CompileError}
      (htypes : sharedTypes files c.templates d = .ok types)
      (hms : List.Forall₂ (fun p m => moduleOf p = .ok m) ps ms) (hrest : finish d ms = .ok rest)
      (hfile : file ∈ types ++ rest) (h : c.gate.formatFile file = .error e) :
      Fails c files d ps .formatting e

/-- What a package consists of: the shared types, a module for each prompt in the order of the
prompts, and the index.  All of them are formatted, which changes nothing but their contents. -/
structure Compiled (c : Compiler) (files : FileTree) (d : Dialect) (ps : List Prompt)
    (out : List OutputFile) : Prop where
  parts : ∃ types ms, sharedTypes files c.templates d = .ok types ∧
    List.Forall₂ (fun p m => ModuleContent.ofPrompt p = .ok m) ps ms ∧
      List.Forall₂ (fun raw file => c.gate.formatFile raw = .ok file ∧
          file.path = raw.path ∧ file.language = raw.language)
        (types ++ (ms.map (·.file d) ++ [indexFile d ms])) out
  /-- The standard gate leaves all files as they are. -/
  fixed : c.gate = .standard → ∀ file ∈ out, ∃ f,
    c.gate.get? (Gate.extension file.path) = some f ∧ f file.contents = .ok file.contents

variable {c : Compiler} {files : FileTree} {d : Dialect} {ps : List Prompt}

/-- The phase in which compiling fails, if it does. -/
def failingPhase? (c : Compiler) (files : FileTree) (d : Dialect) (ps : List Prompt) :
    Option Phase :=
  match sharedTypes files c.templates d, ps.mapM moduleOf with
  | .error _, _ => some .templates
  | .ok _, .error _ => some .generation
  | .ok types, .ok ms =>
    match finish d ms with
    | .error _ => some .paths
    | .ok rest =>
      match (types ++ rest).mapM c.gate.formatFile with
      | .error _ => some .formatting
      | .ok _ => none

/-- An item that fails lets the work one by one fail, perhaps with another error. -/
theorem exists_mapM_eq_error {ε α β : Type} {f : α → Except ε β} {xs : List α} {x : α}
    (hx : x ∈ xs) {e : ε} (h : f x = .error e) : ∃ e', xs.mapM f = .error e' := by
  cases hall : xs.mapM f with
  | error e' => exact ⟨e', rfl⟩
  | ok ys =>
    obtain ⟨y, -, hy⟩ := exists_of_mem_left (mapM_eq_ok hall) hx
    rw [h] at hy
    cases hy

/-- Errors come up in one phase only. -/
theorem Fails.failingPhase?_eq {phase : Phase} {e : CompileError}
    (h : c.Fails files d ps phase e) : c.failingPhase? files d ps = some phase := by
  rw [failingPhase?]
  cases h with
  | templates h => rw [h]
  | generation htypes hp h =>
    obtain ⟨e', he'⟩ := exists_mapM_eq_error hp h
    rw [htypes, he']
  | paths htypes hms h => simp only [htypes, mapM_eq_ok_iff.mpr hms, h]
  | formatting htypes hms hrest hfile h =>
    obtain ⟨e', he'⟩ := exists_mapM_eq_error hfile h
    simp only [htypes, mapM_eq_ok_iff.mpr hms, hrest, he']

/-- One by one, the same files come out as in any other order. -/
theorem compile_eq_ok_iff_compileOneByOne (schedule : Schedule) {out : List OutputFile} :
    ({ c with schedule } : Compiler).compile files d ps = .ok out ↔
      c.compileOneByOne files d ps = .ok out := by
  constructor
  -- with all steps done, the order in which they were done is no longer seen
  · intro h
    obtain ⟨assembled, hassembled, hformat⟩ := bind_eq_ok h
    obtain ⟨types, htypes, h⟩ := bind_eq_ok hassembled
    obtain ⟨ms, hms, h⟩ := bind_eq_ok h
    obtain ⟨rest, hrest, h⟩ := bind_eq_ok h
    cases h
    rw [compileOneByOne, bind_of_eq_ok htypes,
      bind_of_eq_ok (mapM_eq_ok_iff.mpr (mapInOrder_eq_ok_iff.mp hms)), bind_of_eq_ok hrest]
    exact mapM_eq_ok_iff.mpr (mapInOrder_eq_ok_iff.mp hformat)
  · intro h
    obtain ⟨types, htypes, h⟩ := bind_eq_ok h
    obtain ⟨ms, hms, h⟩ := bind_eq_ok h
    obtain ⟨rest, hrest, hformat⟩ := bind_eq_ok h
    rw [compile, assemble, bind_of_eq_ok htypes,
      bind_of_eq_ok (mapInOrder_eq_ok_iff.mpr (mapM_eq_ok_iff.mp hms)), bind_of_eq_ok hrest]
    exact mapInOrder_eq_ok_iff.mpr (mapM_eq_ok_iff.mp hformat)

/-- What comes out is a whole package. -/
theorem compiled_of_compileOneByOne {out : List OutputFile}
    (h : c.compileOneByOne files d ps = .ok out) : c.Compiled files d ps out := by
  obtain ⟨types, htypes, h⟩ := bind_eq_ok h
  obtain ⟨ms, hms, h⟩ := bind_eq_ok h
  obtain ⟨rest, hrest, h⟩ := bind_eq_ok h
  have hformat := mapM_eq_ok h
  constructor
  · refine ⟨types, ms, htypes, (mapM_eq_ok hms).imp fun _ _ => moduleOf_eq_ok, ?_⟩
    rw [← finish_eq_ok hrest]
    refine hformat.imp fun raw file hfile => ?_
    obtain ⟨-, -, -, heq⟩ := Gate.formatFile_eq_ok hfile
    rw [heq] at hfile ⊢
    exact ⟨hfile, rfl, rfl⟩
  · intro hgate file hfile
    obtain ⟨raw, -, hraw⟩ := exists_of_mem_right hformat hfile
    rw [hgate] at hraw ⊢
    exact Gate.standard_formatFile_eq_self hraw

/-- An error of the work one by one is that of an item in some phase. -/
theorem exists_fails_of_compileOneByOne {e : CompileError}
    (h : c.compileOneByOne files d ps = .error e) : ∃ phase, c.Fails files d ps phase e := by
  obtain h | ⟨types, htypes, h⟩ := bind_eq_error h
  · exact ⟨_, .templates h⟩
  obtain h | ⟨ms, hms, h⟩ := bind_eq_error h
  · obtain ⟨p, hp, he⟩ := exists_error_of_mapM h
    exact ⟨_, .generation htypes hp he⟩
  obtain h | ⟨rest, hrest, h⟩ := bind_eq_error h
  · exact ⟨_, .paths htypes (mapM_eq_ok hms) h⟩
  · obtain ⟨file, hfile, he⟩ := exists_error_of_mapM h
    exact ⟨_, .formatting htypes (mapM_eq_ok hms) hrest hfile he⟩

/-- In some order, the error of an item in some phase comes first, and no other errors do. -/
theorem exists_compile_eq_error_iff {e : CompileError} :
    (∃ schedule, ({ c with schedule } : Compiler).compile files d ps = .error e) ↔
      ∃ phase, c.Fails files d ps phase e := by
  constructor
  · rintro ⟨schedule, h⟩
    obtain h | ⟨assembled, hassembled, h⟩ := bind_eq_error h
    · obtain h | ⟨types, htypes, h⟩ := bind_eq_error h
      · exact ⟨_, .templates h⟩
      obtain h | ⟨ms, hms, h⟩ := bind_eq_error h
      · obtain ⟨p, hp, he⟩ := exists_error_of_mapInOrder h
        exact ⟨_, .generation htypes hp he⟩
      obtain h | ⟨rest, -, h⟩ := bind_eq_error h
      · exact ⟨_, .paths htypes (mapInOrder_eq_ok_iff.mp hms) h⟩
      · cases h
    · obtain ⟨types, htypes, hassembled⟩ := bind_eq_ok hassembled
      obtain ⟨ms, hms, hassembled⟩ := bind_eq_ok hassembled
      obtain ⟨rest, hrest, hassembled⟩ := bind_eq_ok hassembled
      cases hassembled
      obtain ⟨file, hfile, he⟩ := exists_error_of_mapInOrder h
      exact ⟨_, .formatting htypes (mapInOrder_eq_ok_iff.mp hms) hrest hfile he⟩
  · rintro ⟨phase, h⟩
    cases h with
    | templates h =>
      refine ⟨{}, ?_⟩
      rw [compile, assemble, h]
      rfl
    | generation htypes hp h =>
      -- the prompt has its turn first
      obtain ⟨order, horder⟩ := exists_mapInOrder_eq_error_iff.mpr ⟨_, hp, h⟩
      refine ⟨{ modules := order }, ?_⟩
      rw [compile, assemble, bind_of_eq_ok htypes, horder]
      rfl
    | paths htypes hms h =>
      refine ⟨{}, ?_⟩
      rw [compile, assemble, bind_of_eq_ok htypes, bind_of_eq_ok (mapInOrder_eq_ok_iff.mpr hms), h]
      rfl
    | formatting htypes hms hrest hfile h =>
      -- the file has its turn first
      obtain ⟨order, horder⟩ := exists_mapInOrder_eq_error_iff.mpr ⟨_, hfile, h⟩
      refine ⟨{ formatting := order }, ?_⟩
      rw [compile, assemble, bind_of_eq_ok htypes, bind_of_eq_ok (mapInOrder_eq_ok_iff.mpr hms),
        bind_of_eq_ok hrest]
      exact horder

/-- Compiling in any order gives the same files as one by one, or none as well.  They are a whole
package: the shared types, a module for each prompt and the index, with nothing but their contents
changed by formatting, and nothing left to change for the standard gate.  Errors are those of items
in some phase, which is the same one in all orders, and any of them may come first. -/
theorem compile_in_any_order (c : Compiler) (files : FileTree) (d : Dialect) (ps : List Prompt) :
    (∀ schedule,
      (∀ out, ({ c with schedule } : Compiler).compile files d ps = .ok out ↔
        c.compileOneByOne files d ps = .ok out) ∧
      ∀ e e', ({ c with schedule } : Compiler).compile files d ps = .error e →
        c.compileOneByOne files d ps = .error e' →
          ∃ phase, c.Fails files d ps phase e ∧ c.Fails files d ps phase e') ∧
    (∀ out, c.compileOneByOne files d ps = .ok out → c.Compiled files d ps out) ∧
    (∀ phase phase' e e', c.Fails files d ps phase e → c.Fails files d ps phase' e' →
      phase = phase') ∧
    ∀ e, (∃ schedule, ({ c with schedule } : Compiler).compile files d ps = .error e) ↔
      ∃ phase, c.Fails files d ps phase e := by
  have hunique : ∀ phase phase' e e', c.Fails files d ps phase e →
      c.Fails files d ps phase' e' → phase = phase' := by
    intro phase phase' e e' h h'
    exact Option.some.inj (h.failingPhase?_eq.symm.trans h'.failingPhase?_eq)
  refine ⟨fun schedule => ⟨fun out => compile_eq_ok_iff_compileOneByOne schedule, ?_⟩,
    fun out => compiled_of_compileOneByOne, hunique, fun e => exists_compile_eq_error_iff⟩
  intro e e' h h'
  -- each of the two errors comes up in some phase, and there is only one
  obtain ⟨phase, hphase⟩ := exists_compile_eq_error_iff.mp ⟨schedule, h⟩
  obtain ⟨phase', hphase'⟩ := exists_fails_of_compileOneByOne h'
  obtain rfl := hunique phase phase' e e' hphase hphase'
  exact ⟨phase, hphase, hphase'⟩

/-- A prompt with a tool whose parameters are no schema. -/
def withoutSchema (name : String) (parameters : Json) : Prompt where
  name := name
  system := ""
  tools := [⟨"look up", "", ⟨parameters⟩⟩]

/-- Of two prompts that fail, the first one gives the error if they are compiled one by one, and
the other one does if it is done earlier. -/
theorem compile_in_any_order_racing :
    ∃ e e', ({ schedule := { modules := [1] } } : Compiler).compile ⟨[], []⟩ .nodeEsm
        [withoutSchema "a" .null, withoutSchema "b" (.array [])] = .error e ∧
      ({} : Compiler).compileOneByOne ⟨[], []⟩ .nodeEsm
        [withoutSchema "a" .null, withoutSchema "b" (.array [])] = .error e' ∧ e ≠ e' ∧
      ∃ phase, ({} : Compiler).Fails ⟨[], []⟩ .nodeEsm
          [withoutSchema "a" .null, withoutSchema "b" (.array [])] phase e ∧
        ({} : Compiler).Fails ⟨[], []⟩ .nodeEsm
          [withoutSchema "a" .null, withoutSchema "b" (.array [])] phase e' := by
  refine ⟨_, _, rfl, rfl, by decide, ?_⟩
  exact ((compile_in_any_order {} ⟨[], []⟩ .nodeEsm
    [withoutSchema "a" .null, withoutSchema "b" (.array [])]).1 { modules := [1] }).2 _ _ rfl rfl

end Compiler

end Promptwright
