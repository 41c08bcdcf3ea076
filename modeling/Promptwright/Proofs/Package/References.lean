import Promptwright.Proofs.Package.Bindings
import Promptwright.Proofs.Text.Lines

/-!
# References between the files of a package

The index refers to modules, modules refer to the library and to the shared types, and prompt
objects refer to validators.  Line by line the index leads to the module of its prompt, which
declares and exports the name that the index asks for; and validators are declared before they are
used.  The module with the shared types is another matter: it is looked for under the extension of
the dialect, and the files with shared types have the names that their templates have.

## Key results

- `target?_importPath`: a module is found where imports look for it
- `lines_index`: the index, line by line
- `references_resolve`: names and modules that are referred to
- `closed_iff`: when all files that are referred to are there
-/

namespace Promptwright

open Script (Clause Keyword Spells Symbol clausesOf)

/-! ## Where imports lead -/

/-- The path of the file that a generated script refers to by a specifier, unless this leads out of
the package.  An extension that imports leave out is added. -/
def Dialect.target? (d : Dialect) (specifier : String) : Option String :=
  match specifier.toList with
  | '.' :: '/' :: cs =>
    some (String.ofList cs ++ (if d.extensionInImports then "" else "." ++ d.extension))
  | _ => none

/-- A generated module is found where imports look for it. -/
theorem target?_importPath (d : Dialect) (stem : String) :
    d.target? (d.importPath stem) = some (d.fileName stem) := by
  have hlist : (d.importPath stem).toList = '.' :: '/' :: (stem ++ d.importSuffix).toList := by
    rw [Dialect.importPath, String.append_assoc, String.toList_append]
    rfl
  rw [Dialect.target?, hlist]
  simp only [String.ofList_toList, Dialect.fileName, Dialect.importSuffix]
  cases d.extensionInImports <;> simp [String.append_assoc]

/-- The escaped characters of a text spell it. -/
theorem spells_quotedBody (s : String) : Spells (quotedBody s) s.toList :=
  Script.spells_flatMap_escapeChar s.toList

/-- A literal in a script is the text that it is made from. -/
theorem eq_of_spells_quotedBody {s t : String} (h : Spells (quotedBody s) t.toList) : t = s :=
  String.toList_inj.mp (h.unique (spells_quotedBody s))

/-! ## The lines of the index -/

/-- A literal stands on one line. -/
theorem newline_not_mem_quote (s : String) : '\n' ∉ (Script.quote s).toList := by
  have hbody : '\n' ∉ quotedBody s := (spells_quotedBody s).body.2
  rw [Script.quote, Script.quoteChars, String.toList_ofList]
  rw [quotedBody] at hbody
  simp [hbody]

/-- So does a name that is made from a label. -/
theorem MadeName.newline_not_mem {x : String} (h : MadeName x) : '\n' ∉ x.toList :=
  fun hmem => absurd (h.alphanum _ hmem) (by decide)

/-- A statement without line feeds is a line. -/
theorem isLine_statement {t : String} (h : '\n' ∉ t.toList) : Text.IsLine (t ++ ";").toList := by
  rw [String.toList_append]
  refine Text.isLine_of_last (by simp [h]) fun c hc => ?_
  rw [List.getLast?_append_of_ne_nil _ (by decide)] at hc
  obtain rfl : ';' = c := Option.some.inj hc
  decide

/-- The statement for a prompt is a line. -/
theorem isLine_indexStatement (d : Dialect) {m : ModuleContent} (h : MadeName m.binding) :
    Text.IsLine (indexStatement d m).toList := by
  have hname := h.newline_not_mem
  have hpath := newline_not_mem_quote (d.importPath m.stem)
  rw [indexStatement]
  cases d.style with
  | esm =>
    apply isLine_statement
    simp [hname, hpath]
  | commonJs =>
    apply isLine_statement
    simp [hname, hpath]

/-- The statement for the type of prompts is a line. -/
theorem isLine_typeStatement (d : Dialect) : Text.IsLine (typeStatement d).toList := by
  have hpath := newline_not_mem_quote (d.importPath typesStem)
  have htype : '\n' ∉ promptType.toList := by decide
  apply isLine_statement
  simp [hpath, htype]

/-- The lines of the index: one for the type of prompts, in typed dialects, and one for each
prompt. -/
theorem lines_index (d : Dialect) {ms : List ModuleContent} (h : ∀ m ∈ ms, MadeName m.binding) :
    Text.lines (indexFile d ms).contents.toList =
      (if d.typed then [(typeStatement d).toList] else []) ++
        ms.map fun m => (indexStatement d m).toList := by
  have hline : ∀ t, (line t).toList = t.toList ++ ['\n'] := fun t => String.toList_append
  have htypes : (indexTypes d).toList =
      Script.unlines (if d.typed then [(typeStatement d).toList] else []) := by
    rw [indexTypes]
    split
    · exact (hline _).trans (List.append_nil _).symm
    · rfl
  have hprompts : ∀ ms : List ModuleContent, ((ms.map (indexLine d)).foldr (· ++ ·) "").toList =
      Script.unlines (ms.map fun m => (indexStatement d m).toList) := by
    intro ms
    induction ms with
    | nil => rfl
    | cons m ms ih =>
      rw [List.map_cons, List.foldr_cons, String.toList_append, ih, indexLine_eq, hline]
      rfl
  -- the index is made of lines, each with its end
  have hcontents : (indexFile d ms).contents.toList = Script.unlines
      ((if d.typed then [(typeStatement d).toList] else []) ++
        ms.map fun m => (indexStatement d m).toList) := by
    rw [indexFile, String.toList_append, htypes, hprompts, Script.unlines, Script.unlines,
      Script.unlines, List.flatMap_append]
  -- no line holds a line end or white space at its end
  rw [hcontents]
  apply Text.lines_unlines
  intro l hl
  obtain hl | hl := List.mem_append.mp hl
  · split at hl
    · rw [List.mem_singleton.mp hl]
      exact isLine_typeStatement d
    · cases hl
  · obtain ⟨m, hm, rfl⟩ := List.mem_map.mp hl
    exact isLine_indexStatement d (h m hm)

/-- A line of the index that exports a prompt, given the modules and which of them is that of the
prompt: it names the prompt, and where it comes from there is this module and no other. -/
def Reexports (d : Dialect) (modules : List OutputFile) (i : Nat) (p : Prompt)
    (l : List Char) : Prop :=
  ∃ body specifier path,
    Script.symbols (String.ofList l) = reexport d.style (ModuleContent.bindingOf p) body ∧
      Spells body specifier.toList ∧ d.target? specifier = some path ∧
        ∀ j, (modules[j]?).map OutputFile.path = some path ↔ j = i

/-- A line of the index that exports the type of prompts. -/
def ReexportsType (l : List Char) : Prop :=
  ∃ body, Script.symbols (String.ofList l) = reexportType body

/-! ## Modules -/

/-- A module in which all names that are referred to are there. -/
structure Resolved (p : Prompt) (file : OutputFile) : Prop where
  /-- The clauses of the module are read without anything unexpected. -/
  read : ∀ k, .unread k ∉ clausesOf file.contents
  declared : (declaredNames file.contents).count (ModuleContent.bindingOf p) = 1
  exported : (exportedNames file.contents).count (ModuleContent.bindingOf p) = 1
  /-- The names that the prompt object uses: one for each tool, and one for the answer. -/
  used : (clausesOf file.contents).filterMap Clause.used? =
    p.tools.map (fun t => (.parameters, (ToolEntry.ofTool t).parameters)) ++
      (p.schema.map fun _ => (.schema, ModuleContent.schemaBindingOf p)).toList
  earlier : ∀ pre k x post, clausesOf file.contents = pre ++ .uses k x :: post →
    .declares .const x ∈ pre
  /-- The library is imported if there are validators, by their constants. -/
  library : .imports "z" ∈ clausesOf file.contents ↔
    ∃ x, x ≠ ModuleContent.bindingOf p ∧ .declares .const x ∈ clausesOf file.contents
  validators : (∃ x, x ≠ ModuleContent.bindingOf p ∧
    .declares .const x ∈ clausesOf file.contents) ↔ p.tools ≠ [] ∨ p.schema.isSome

/-- What stands in front of an item that is not in the first part of a list holds that part. -/
theorem prefix_of_append_eq {α : Type} {xs ys pre post : List α} {a : α} (ha : a ∉ xs)
    (h : xs ++ ys = pre ++ a :: post) : xs <+: pre := by
  obtain ⟨zs, hpre, -⟩ | ⟨zs, hxs, hys⟩ := List.append_eq_append_iff.mp h
  · exact ⟨zs, hpre.symm⟩
  · cases zs with
    | nil =>
      rw [List.append_nil] at hxs
      exact ⟨[], by simp [hxs]⟩
    | cons b zs =>
      -- otherwise the item would stand in the first part
      cases hys
      exact absurd (hxs ▸ List.mem_append_right _ List.mem_cons_self) ha

/-- The clauses that the module of a prompt may have. -/
inductive ModuleClause (p : Prompt) : Clause → Prop
  | library {x : String} (hx : x = "z") (h : ModuleContent.validatorNames p ≠ []) :
      ModuleClause p (.imports x)
  | promptType {x : String} (hx : x = promptType) : ModuleClause p (.imports x)
  | source (body : List Char) : ModuleClause p (.source body)
  | declares {x : String} (h : x ∈ ModuleContent.validatorNames p) :
      ModuleClause p (.declares .const x)
  | declaresType (x : String) : ModuleClause p (.declares .type x)
  | declaresPrompt {x : String} (hx : x = ModuleContent.bindingOf p) :
      ModuleClause p (.declares .const x)
  | exports (x : String) : ModuleClause p (.exports x)
  | uses {k : Keyword} {x : String} (h : x ∈ ModuleContent.validatorNames p) :
      ModuleClause p (.uses k x)

section Clauses

variable {d : Dialect} {p : Prompt}

/-- The clauses of a module are those of its parts. -/
theorem mem_moduleClauses {u : Clause} : u ∈ moduleClauses d p ↔
    u ∈ libraryClauses d (ModuleContent.validatorNames p) ∨ u ∈ typeClauses d ∨
      (∃ x ∈ ModuleContent.validatorNames p, u ∈ validatorClauses d x) ∨
      u ∈ openingClauses d (ModuleContent.bindingOf p) ∨ u ∈ useClauses p ∨
      u ∈ closingClauses d (ModuleContent.bindingOf p) := by
  simp [moduleClauses]

/-- A module has no other clauses. -/
theorem moduleClause_of_mem {u : Clause} (h : u ∈ moduleClauses d p) : ModuleClause p u := by
  -- part by part, in the order of the module
  obtain h | h | ⟨x, hx, h⟩ | h | h | h := mem_moduleClauses.mp h
  · rw [libraryClauses] at h
    split at h
    · cases h
    next hne =>
      simp only [List.mem_cons, List.not_mem_nil, or_false] at h
      obtain rfl | rfl := h
      · exact .library rfl fun hnil => hne (List.isEmpty_iff.mpr hnil)
      · exact .source _
  · rw [typeClauses] at h
    split at h
    · simp only [List.mem_cons, List.not_mem_nil, or_false] at h
      obtain rfl | rfl := h
      · exact .promptType rfl
      · exact .source _
    · cases h
  · rw [validatorClauses] at h
    obtain h | h := List.mem_append.mp h
    · have hbound : u = .exports x ∨ u = .declares .const x := by
        cases hstyle : d.style <;> rw [hstyle] at h <;> simpa [or_comm] using h
      obtain rfl | rfl := hbound
      · exact .exports x
      · exact .declares hx
    · have htype : u = .exports (typeNameOf x) ∨ u = .declares .type (typeNameOf x) := by
        cases hstyle : d.style <;> simp [hstyle] at h <;> simp [h]
      obtain rfl | rfl := htype
      · exact .exports _
      · exact .declaresType _
  · have hprompt : u = .exports (ModuleContent.bindingOf p) ∨
        u = .declares .const (ModuleContent.bindingOf p) := by
      rw [openingClauses] at h
      cases hstyle : d.style <;> simp [hstyle] at h <;> simp [h]
    obtain rfl | rfl := hprompt
    · exact .exports _
    · exact .declaresPrompt rfl
  · obtain ⟨k, x, rfl, hx⟩ := exists_of_mem_useClauses h
    exact .uses hx
  · rw [closingClauses] at h
    split at h
    · cases h
    · rw [List.mem_singleton.mp h]
      exact .exports _

/-- The constants of a module are its validators and its prompt. -/
theorem declares_const_mem_iff {x : String} : .declares .const x ∈ moduleClauses d p ↔
    x ∈ ModuleContent.validatorNames p ∨ x = ModuleContent.bindingOf p := by
  constructor
  · intro h
    cases moduleClause_of_mem h with
    | declares hx => exact .inl hx
    | declaresPrompt hx => exact .inr hx
  · intro h
    rw [mem_moduleClauses]
    obtain hx | rfl := h
    · refine .inr (.inr (.inl ⟨x, hx, ?_⟩))
      rw [validatorClauses]
      cases d.style <;> simp
    · refine .inr (.inr (.inr (.inl ?_)))
      rw [openingClauses]
      cases d.style <;> simp

/-- The library is imported if there are validators. -/
theorem imports_z_mem_iff :
    .imports "z" ∈ moduleClauses d p ↔ ModuleContent.validatorNames p ≠ [] := by
  constructor
  · intro h
    cases moduleClause_of_mem h with
    | library _ h => exact h
    | promptType hx => exact absurd hx (by decide)
  · intro h
    rw [mem_moduleClauses, libraryClauses, if_neg (by rwa [List.isEmpty_iff])]
    exact .inl List.mem_cons_self

/-- In front of the prompt object no name is used. -/
theorem uses_not_mem (k : Keyword) (x : String) :
    .uses k x ∉ libraryClauses d (ModuleContent.validatorNames p) ++ typeClauses d ++
      (ModuleContent.validatorNames p).flatMap (validatorClauses d) ++
      openingClauses d (ModuleContent.bindingOf p) := by
  intro h
  simp only [List.mem_append, List.mem_flatMap] at h
  obtain ((h | h) | ⟨y, -, h⟩) | h := h
  · rw [libraryClauses] at h
    split at h <;> simp at h
  · rw [typeClauses] at h
    split at h <;> simp at h
  · cases hstyle : d.style <;> cases htyped : d.typed <;>
      simp [validatorClauses, hstyle, htyped] at h
  · rw [openingClauses] at h
    split at h <;> simp at h

/-- Validators are declared before the prompt object uses them. -/
theorem declares_mem_of_eq_append {pre post : List Clause} {k : Keyword} {x : String}
    (h : moduleClauses d p = pre ++ .uses k x :: post) : .declares .const x ∈ pre := by
  have hx : x ∈ ModuleContent.validatorNames p := by
    have hmem : .uses k x ∈ moduleClauses d p := h ▸ List.mem_append_right _ List.mem_cons_self
    cases moduleClause_of_mem hmem with
    | uses hx => exact hx
  have hself : .declares .const x ∈ validatorClauses d x := by
    rw [validatorClauses]
    cases d.style <;> simp
  rw [moduleClauses, List.append_assoc] at h
  apply (prefix_of_append_eq (uses_not_mem k x) h).subset
  simp only [List.mem_append, List.mem_flatMap]
  exact .inl (.inr ⟨x, hx, hself⟩)

/-- The names that the prompt object uses: one for each tool, and one for the answer. -/
theorem filterMap_used : (moduleClauses d p).filterMap Clause.used? =
    p.tools.map (fun t => (.parameters, (ToolEntry.ofTool t).parameters)) ++
      (p.schema.map fun _ => (.schema, ModuleContent.schemaBindingOf p)).toList := by
  have hbefore : (libraryClauses d (ModuleContent.validatorNames p) ++ typeClauses d ++
      (ModuleContent.validatorNames p).flatMap (validatorClauses d) ++
      openingClauses d (ModuleContent.bindingOf p)).filterMap Clause.used? = [] := by
    rw [List.filterMap_eq_nil_iff]
    intro u hu
    cases u with
    | uses k x => exact absurd hu (uses_not_mem k x)
    | _ => rfl
  -- exporting the prompt object uses no validator
  have hafter : (closingClauses d (ModuleContent.bindingOf p)).filterMap Clause.used? = [] := by
    rw [closingClauses]
    cases d.style <;> rfl
  have htools : (p.tools.map fun t =>
      Clause.uses .parameters (ToolEntry.ofTool t).parameters).filterMap Clause.used? =
        p.tools.map fun t => (.parameters, (ToolEntry.ofTool t).parameters) := by
    rw [List.filterMap_map]
    exact congrFun List.filterMap_eq_map p.tools
  rw [moduleClauses, List.filterMap_append, List.filterMap_append, hbefore, hafter,
    List.nil_append, List.append_nil, useClauses, List.filterMap_append, htools]
  cases p.schema <;> rfl

end Clauses

/-- A prompt has validators if it has tools or a schema for its answer. -/
theorem validatorNames_ne_nil_iff {p : Prompt} :
    ModuleContent.validatorNames p ≠ [] ↔ p.tools ≠ [] ∨ p.schema.isSome := by
  rw [ModuleContent.validatorNames]
  cases p.schema <;> simp

/-- In the module of a prompt all names that are referred to are there. -/
theorem resolved_file (d : Dialect) {p : Prompt} {m : ModuleContent}
    (h : ModuleContent.ofPrompt p = .ok m) : Resolved p (m.file d) := by
  have hclauses : clausesOf (m.file d).contents = moduleClauses d p :=
    (ModuleContent.says_source d h).clausesOf_eq
  have hsome : (∃ x, x ≠ ModuleContent.bindingOf p ∧ .declares .const x ∈ moduleClauses d p) ↔
      ModuleContent.validatorNames p ≠ [] := by
    constructor
    · rintro ⟨x, hne, hx⟩
      obtain hx | hx := declares_const_mem_iff.mp hx
      · exact List.ne_nil_of_mem hx
      · exact absurd hx hne
    · intro hne
      obtain ⟨x, hx⟩ := List.exists_mem_of_ne_nil _ hne
      exact ⟨x, (ModuleContent.bindingOf_ne hx).1.symm, declares_const_mem_iff.mpr (.inl hx)⟩
  have hcount : ∀ typed, ((ModuleContent.validatorNames p).flatMap (namesOf typed) ++
      [ModuleContent.bindingOf p]).count (ModuleContent.bindingOf p) = 1 := by
    intro typed
    -- neither validators nor their types have the name of the prompt
    have hnot : ModuleContent.bindingOf p ∉
        (ModuleContent.validatorNames p).flatMap (namesOf typed) := by
      intro hmem
      obtain ⟨x, hx, hmem⟩ := List.mem_flatMap.mp hmem
      obtain ⟨hname, htype⟩ := ModuleContent.bindingOf_ne hx
      rw [namesOf] at hmem
      split at hmem <;> simp [hname, htype] at hmem
    rw [List.count_append, List.count_eq_zero.mpr hnot, List.count_singleton_self]
  constructor
  · rw [hclauses]
    intro k hk
    cases moduleClause_of_mem hk
  · rw [ModuleContent.file, declaredNames_source d h]
    exact hcount d.typed
  · rw [ModuleContent.file, exportedNames_source d h]
    exact hcount _
  · rw [hclauses, filterMap_used]
  · rw [hclauses]
    intro pre k x post
    exact declares_mem_of_eq_append
  · rw [hclauses, hsome, imports_z_mem_iff]
  · rw [hclauses, hsome, validatorNames_ne_nil_iff]

/-! ## Packages -/

namespace Compiler

variable {c : Compiler} {files : FileTree} {d : Dialect} {ps : List Prompt} {out : List OutputFile}

/-- The lines of the index lead to the modules of their prompts. -/
theorem reexports_indexStatement {ms : List ModuleContent}
    (hms : List.Forall₂ (fun p m => ModuleContent.ofPrompt p = .ok m) ps ms)
    (hpaths : (modulePaths d ps).Nodup) {i : Nat} {p : Prompt} (hp : ps[i]? = some p) :
    ∃ l, (ms.map fun m => (indexStatement d m).toList)[i]? = some l ∧
      Reexports d (ms.map (·.file d)) i p l := by
  obtain ⟨hi, hp⟩ := List.getElem?_eq_some_iff.mp hp
  have him : i < ms.length := hms.length_eq ▸ hi
  have hm : ModuleContent.ofPrompt p = .ok ms[i] := by
    have hget := (List.forall₂_iff_get.mp hms).2 i hi him
    rwa [List.get_eq_getElem, List.get_eq_getElem, hp] at hget
  have hbinding := (ModuleContent.names_of_ofPrompt hm).1
  have hplain : Script.PlainName ms[i].binding :=
    hbinding ▸ (ModuleContent.madeName_bindingOf p).plainName
  have hnodup : ((ms.map (·.file d)).map OutputFile.path).Nodup := by
    rw [map_path_of_forall₂ hms]
    exact (List.nodup_append.mp hpaths).1
  have hpath : ((ms.map (·.file d)).map OutputFile.path)[i]? = some (d.fileName ms[i].stem) := by
    rw [List.getElem?_map, List.getElem?_map, List.getElem?_eq_getElem him]
    rfl
  refine ⟨(indexStatement d ms[i]).toList, ?_, quotedBody (d.importPath ms[i].stem),
    d.importPath ms[i].stem, d.fileName ms[i].stem, ?_, spells_quotedBody _,
    target?_importPath d _, fun j => ?_⟩
  · rw [List.getElem?_map, List.getElem?_eq_getElem him]
    rfl
  · rw [String.ofList_toList, (yields_indexStatement d hplain).symbols_eq, hbinding]
  · rw [← List.getElem?_map]
    constructor
    -- the paths are different, so this one says which module it is
    · intro hj
      have hlt : i < ((ms.map (·.file d)).map OutputFile.path).length := by simpa using him
      exact ((List.getElem?_inj hlt hnodup).mp (hpath.trans hj.symm)).symm
    · rintro rfl
      exact hpath

/-- All that is referred to is there.  The index has one line for each prompt, behind one for the
type of prompts in typed dialects; each names its prompt and the module of the prompt, by a
specifier that leads to this module and to no other.  In each module the prompt is declared and
exported once, the validators that the prompt object uses are declared before it, and the library is
imported if there are validators. -/
theorem references_resolve (h : c.assemble files d ps = .ok out) :
    ∃ types modules index typeLines lines, out = types ++ (modules ++ [index]) ∧
      Text.lines index.contents.toList = typeLines ++ lines ∧
      (typeLines.length = if d.typed then 1 else 0) ∧ (∀ l ∈ typeLines, ReexportsType l) ∧
      lines.length = ps.length ∧
      (∀ i p, ps[i]? = some p → ∃ l, lines[i]? = some l ∧ Reexports d modules i p l) ∧
      List.Forall₂ Resolved ps modules := by
  obtain ⟨types, ms, -, hms, hout⟩ := assemble_eq_ok h
  obtain ⟨-, -, hpaths, -⟩ := map_path_of_assemble h
  have hlines := lines_index d (madeName_of_mem_modules hms)
  refine ⟨types, ms.map (·.file d), indexFile d ms, _, _, hout, hlines, ?_, ?_, ?_,
    fun i p hp => reexports_indexStatement hms hpaths hp, ?_⟩
  · cases d.typed <;> rfl
  · intro l hl
    split at hl
    · rw [List.mem_singleton.mp hl]
      refine ⟨quotedBody (d.importPath typesStem), ?_⟩
      rw [String.ofList_toList]
      exact (yields_typeStatement d).symbols_eq
    · cases hl
  · rw [List.length_map, hms.length_eq]
  · rw [List.forall₂_map_right_iff]
    exact hms.imp fun _ _ hm => resolved_file d hm

/-- Types in modules that are not the usual ones. -/
def typedCommonJs : Dialect where
  language := "typescript"
  extension := "cts"
  style := .commonJs
  typed := true

/-- With types and with `require`, all that three prompts refer to is there; the last one is found
behind two that have validators. -/
theorem references_resolve_commonJs :
    ∃ out, ({} : Compiler).assemble ⟨[], []⟩ typedCommonJs
        [noisy, lateDigits, { name := "plain", system := "" }] = .ok out ∧
      ∃ types modules index typeLines lines, out = types ++ (modules ++ [index]) ∧
        Text.lines index.contents.toList = typeLines ++ lines ∧ lines.length = 3 ∧
        (∃ l, lines[2]? = some l ∧
          Reexports typedCommonJs modules 2 { name := "plain", system := "" } l) ∧
        List.Forall₂ Resolved [noisy, lateDigits, { name := "plain", system := "" }] modules := by
  have hassemble : ∃ out, ({} : Compiler).assemble ⟨[], []⟩ typedCommonJs
      [noisy, lateDigits, { name := "plain", system := "" }] = .ok out := ⟨_, rfl⟩
  obtain ⟨out, hout⟩ := hassemble
  obtain ⟨types, modules, index, typeLines, lines, hparts, hlines, -, -, hlength, hreexports,
    hresolved⟩ := references_resolve hout
  exact ⟨out, hout, types, modules, index, typeLines, lines, hparts, hlines, hlength,
    hreexports 2 _ rfl, hresolved⟩

/-! ## Files that are referred to -/

/-- Whether all files that a generated file refers to are in the package. -/
def Closed (d : Dialect) (out : List OutputFile) (file : OutputFile) : Prop :=
  ∀ body, .source body ∈ clausesOf file.contents → ∀ specifier, Spells body specifier.toList →
    ∀ path, d.target? specifier = some path → path ∈ out.map OutputFile.path

/-- Literals stand for the specifiers that they are made from. -/
theorem closed_iff_forall {file : OutputFile} {specifiers : List String}
    (h : ∀ body, .source body ∈ clausesOf file.contents ↔
      ∃ s ∈ specifiers, body = quotedBody s) :
    Closed d out file ↔
      ∀ s ∈ specifiers, ∀ path, d.target? s = some path → path ∈ out.map OutputFile.path := by
  constructor
  · intro hclosed s hs
    exact hclosed _ ((h _).mpr ⟨s, hs, rfl⟩) s (spells_quotedBody s)
  · intro hall body hbody specifier hspells
    obtain ⟨s, hs, rfl⟩ := (h body).mp hbody
    rw [eq_of_spells_quotedBody hspells]
    exact hall s hs

/-- The specifiers in the module of a prompt. -/
def moduleSpecifiers (d : Dialect) (p : Prompt) : List String :=
  (if (ModuleContent.validatorNames p).isEmpty then [] else [d.validatorPath]) ++
    if d.typed then [d.importPath typesStem] else []

/-- The specifiers in the index. -/
def indexSpecifiers (d : Dialect) (ps : List Prompt) : List String :=
  (if d.typed then [d.importPath typesStem] else []) ++
    ps.map fun p => d.importPath (ModuleContent.stemOf p)

/-- A module refers to the library and to the shared types. -/
theorem source_mem_moduleClauses_iff {p : Prompt} {body : List Char} :
    .source body ∈ moduleClauses d p ↔ ∃ s ∈ moduleSpecifiers d p, body = quotedBody s := by
  have huses : .source body ∉ useClauses p := by
    intro h
    obtain ⟨k, y, heq, -⟩ := exists_of_mem_useClauses h
    cases heq
  rw [mem_moduleClauses, moduleSpecifiers]
  cases hstyle : d.style <;> cases htyped : d.typed <;>
    simp [libraryClauses, typeClauses, validatorClauses, openingClauses, closingClauses, hstyle,
      htyped, huses]

/-- The index refers to the shared types and to all modules. -/
theorem source_mem_index_iff {ms : List ModuleContent}
    (hms : List.Forall₂ (fun p m => ModuleContent.ofPrompt p = .ok m) ps ms) {body : List Char} :
    .source body ∈ clausesOf (indexFile d ms).contents ↔
      ∃ s ∈ indexSpecifiers d ps, body = quotedBody s := by
  have hstems : ps.map ModuleContent.stemOf = ms.map ModuleContent.stem :=
    (map_eq_map_of_forall₂ (hms.imp fun _ _ hm => (ModuleContent.names_of_ofPrompt hm).2.1)).symm
  have hspecifiers : ps.map (fun p => d.importPath (ModuleContent.stemOf p)) =
      ms.map fun m => d.importPath m.stem := by
    have h := congrArg (List.map d.importPath) hstems
    rwa [List.map_map, List.map_map] at h
  rw [clausesOf_index hms, indexSpecifiers, hspecifiers, indexTypeClauses]
  cases d.typed <;> simp

/-- A module is found if the package has a file with its path. -/
theorem forall_target?_importPath {stem : String} {paths : List String} :
    (∀ path, d.target? (d.importPath stem) = some path → path ∈ paths) ↔
      d.fileName stem ∈ paths := by
  rw [target?_importPath]
  simp

/-- When the module of a prompt refers to files in the package only. -/
theorem closed_file_iff {p : Prompt} {m : ModuleContent} (h : ModuleContent.ofPrompt p = .ok m) :
    Closed d out (m.file d) ↔
      (d.typed = true → d.fileName typesStem ∈ out.map OutputFile.path) ∧
        (p.tools ≠ [] ∨ p.schema.isSome → ∀ path,
          d.target? d.validatorPath = some path → path ∈ out.map OutputFile.path) := by
  have hsource : ∀ body, .source body ∈ clausesOf (m.file d).contents ↔
      ∃ s ∈ moduleSpecifiers d p, body = quotedBody s := by
    intro body
    have hclauses : clausesOf (m.file d).contents = moduleClauses d p :=
      (ModuleContent.says_source d h).clausesOf_eq
    rw [hclauses]
    exact source_mem_moduleClauses_iff
  rw [closed_iff_forall hsource, moduleSpecifiers, ← validatorNames_ne_nil_iff,
    ← forall_target?_importPath]
  by_cases hnames : ModuleContent.validatorNames p = [] <;> cases d.typed <;>
    simp [hnames, and_comm]

/-- When the index does. -/
theorem closed_index_iff {ms : List ModuleContent}
    (hms : List.Forall₂ (fun p m => ModuleContent.ofPrompt p = .ok m) ps ms)
    (hmodules : ∀ p ∈ ps, d.fileName (ModuleContent.stemOf p) ∈ out.map OutputFile.path) :
    Closed d out (indexFile d ms) ↔
      (d.typed = true → d.fileName typesStem ∈ out.map OutputFile.path) := by
  have hsource : ∀ body, .source body ∈ clausesOf (indexFile d ms).contents ↔
      ∃ s ∈ indexSpecifiers d ps, body = quotedBody s := fun _ => source_mem_index_iff hms
  -- the modules of prompts are there in any case
  have hfound : ∀ p ∈ ps, ∀ path, d.target? (d.importPath (ModuleContent.stemOf p)) = some path →
      path ∈ out.map OutputFile.path :=
    fun p hp => forall_target?_importPath.mpr (hmodules p hp)
  rw [closed_iff_forall hsource, indexSpecifiers, ← forall_target?_importPath]
  constructor
  · intro hall htyped
    exact hall _ (List.mem_append_left _ (by rw [if_pos htyped]; exact List.mem_cons_self))
  · intro htypes s hs
    obtain hs | hs := List.mem_append.mp hs
    · split at hs
      next htyped =>
        rw [List.mem_singleton.mp hs]
        exact htypes htyped
      next => cases hs
    · obtain ⟨p, hp, rfl⟩ := List.mem_map.mp hs
      exact hfound p hp

/-- No module, and not the index, has the path at which the shared types are looked for. -/
theorem fileName_typesStem_not_mem : d.fileName typesStem ∉ modulePaths d ps := by
  intro h
  obtain h | h := List.mem_append.mp h
  · obtain ⟨p, -, hp⟩ := List.mem_map.mp h
    exact fileName_stemOf_ne d p (by decide) hp
  · have hstem : typesStem = "index" := fileName_injective d (List.mem_singleton.mp h)
    exact absurd hstem (by decide)

/-- The shared types that come with the program are found under the extension that they have. -/
theorem typesStem_mem_builtin_iff {types : List OutputFile}
    (h : sharedTypes files .builtin d = .ok types) (htyped : d.typed = true) :
    d.fileName typesStem ∈ types.map OutputFile.path ↔ d.extension = "ts" := by
  rw [sharedTypes_builtin, if_pos htyped] at h
  obtain rfl := Except.ok.inj h
  have hpath : "types.ts" = typesStem ++ "." ++ "ts" := by decide
  rw [List.map_singleton, List.mem_singleton, hpath, Dialect.fileName, String.append_right_inj]

/-- Modules and index refer to one another and, in some packages, to two files besides.  All files
that they refer to are in the package exactly if the shared types of a typed dialect have a file
where the dialect looks for it, and the library, if there are validators and the dialect looks for
it in the package, is there.  The shared types that come with the program are found under one
extension only. -/
theorem closed_iff (h : c.assemble files d ps = .ok out) :
    ∃ types modules index, sharedTypes files c.templates d = .ok types ∧
      out = types ++ (modules ++ [index]) ∧
      ((∀ file ∈ modules ++ [index], Closed d out file) ↔
        (d.typed = true → d.fileName typesStem ∈ types.map OutputFile.path) ∧
        ((∃ p ∈ ps, p.tools ≠ [] ∨ p.schema.isSome) → ∀ path,
          d.target? d.validatorPath = some path → path ∈ out.map OutputFile.path)) ∧
      (c.templates = .builtin → d.typed = true →
        (d.fileName typesStem ∈ types.map OutputFile.path ↔ d.extension = "ts")) := by
  obtain ⟨types, ms, htypes, hms, hout⟩ := assemble_eq_ok h
  obtain ⟨types', htypes', -, hpaths⟩ := map_path_of_assemble h
  obtain rfl : types = types' := Except.ok.inj (htypes.symm.trans htypes')
  -- no prompt has a module with the path of the shared types, so these have it or nothing has
  have hshared : d.fileName typesStem ∈ out.map OutputFile.path ↔
      d.fileName typesStem ∈ types.map OutputFile.path := by
    rw [hpaths, List.mem_append, or_iff_left fileName_typesStem_not_mem]
  have hindex : Closed d out (indexFile d ms) ↔
      (d.typed = true → d.fileName typesStem ∈ types.map OutputFile.path) := by
    rw [← hshared]
    apply closed_index_iff hms
    intro p hp
    rw [hpaths, modulePaths]
    exact List.mem_append_right _ (List.mem_append_left _
      (List.mem_map_of_mem (f := fun p => d.fileName (ModuleContent.stemOf p)) hp))
  refine ⟨types, ms.map (·.file d), indexFile d ms, htypes, hout, ?_, fun hbuiltin htyped =>
    typesStem_mem_builtin_iff (hbuiltin ▸ htypes) htyped⟩
  constructor
  · intro hall
    refine ⟨hindex.mp (hall _ (List.mem_append_right _ List.mem_cons_self)), ?_⟩
    rintro ⟨p, hp, hsome⟩
    obtain ⟨m, hm, hpm⟩ := exists_of_mem_left hms hp
    have hclosed := hall _ (List.mem_append_left _ (List.mem_map_of_mem hm))
    exact ((closed_file_iff hpm).mp hclosed).2 hsome
  · rintro ⟨htyped, hlibrary⟩ file hfile
    obtain hfile | hfile := List.mem_append.mp hfile
    · obtain ⟨m, hm, rfl⟩ := List.mem_map.mp hfile
      obtain ⟨p, hp, hpm⟩ := exists_of_mem_right hms hm
      rw [closed_file_iff hpm, hshared]
      exact ⟨htyped, fun hsome => hlibrary ⟨p, hp, hsome⟩⟩
    · rw [List.mem_singleton.mp hfile, hindex]
      exact htyped

/-- Types under an extension that imports spell out. -/
def typedModules : Dialect where
  language := "typescript"
  extension := "mts"
  typed := true
  extensionInImports := true

/-- There the index refers to shared types that the package has not. -/
theorem missing_types :
    ∃ out, ({} : Compiler).assemble ⟨[], []⟩ typedModules [] = .ok out ∧
      out.map OutputFile.path = ["types.ts", "index.mts"] ∧
      ∃ index ∈ out, .source (quotedBody "./types.mts") ∈ clausesOf index.contents ∧
        typedModules.target? "./types.mts" = some "types.mts" ∧ ¬Closed typedModules out index := by
  have hassemble : ∃ out, ({} : Compiler).assemble ⟨[], []⟩ typedModules [] = .ok out ∧
      out.map OutputFile.path = ["types.ts", "index.mts"] := ⟨_, rfl, by decide +kernel⟩
  obtain ⟨out, hout, hpaths⟩ := hassemble
  obtain ⟨types, ms, -, hms, hparts⟩ := assemble_eq_ok hout
  have htarget : typedModules.target? "./types.mts" = some "types.mts" := by decide +kernel
  have hsource : .source (quotedBody "./types.mts") ∈
      clausesOf (indexFile typedModules ms).contents :=
    (source_mem_index_iff hms).mpr ⟨"./types.mts", by decide +kernel, rfl⟩
  refine ⟨out, hout, hpaths, indexFile typedModules ms, by simp [hparts], hsource, htarget, ?_⟩
  intro hclosed
  have hfound := hclosed _ hsource _ (spells_quotedBody _) _ htarget
  rw [hpaths] at hfound
  exact absurd hfound (by decide)

/-- With the usual extension, modules with validators refer to nothing that is missing. -/
theorem closed_iff_deno :
    ∃ out, ({} : Compiler).assemble ⟨[], []⟩ .deno [noisy, lateDigits] = .ok out ∧
      ∃ types modules index, out = types ++ (modules ++ [index]) ∧
        ∀ file ∈ modules ++ [index], Closed .deno out file := by
  have hassemble : ∃ out,
      ({} : Compiler).assemble ⟨[], []⟩ .deno [noisy, lateDigits] = .ok out := ⟨_, rfl⟩
  obtain ⟨out, hout⟩ := hassemble
  obtain ⟨types, modules, index, -, hparts, hclosed, hbuiltin⟩ := closed_iff hout
  refine ⟨out, hout, types, modules, index, hparts, hclosed.mpr ⟨?_, ?_⟩⟩
  · exact fun htyped => (hbuiltin rfl htyped).mpr rfl
  · have htarget : Dialect.deno.target? Dialect.deno.validatorPath = none := by decide +kernel
    intro _ path hpath
    rw [htarget] at hpath
    cases hpath

end Compiler

end Promptwright
