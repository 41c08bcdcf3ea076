import Promptwright.Proofs.Package.Clauses
import Promptwright.Proofs.Package.Compile
import Promptwright.Proofs.Package.Literal
import Promptwright.Proofs.Script.Statements

/-!
# A prompt in different dialects

A dialect decides how a module imports and exports, and whether it has types.  It has no say in the
rest: whether there is a module at all, what its constants are called, in which order they stand, and
what they are bound to.  So the statements of two modules for one prompt differ in imports, exports
and names for types only, and the constants are the same, to the character.

## Key results

- `Fragment.consists_source`, `ModuleContent.consists_object`: the statements of validators and of
  the prompt object
- `ModuleContent.consists_source`: the statements of a module
- `ModuleContent.filterMap_bound?_statements`: its constants
- `same_in_all_dialects`: what two dialects make of a prompt
-/

namespace Promptwright

open Script (Bracket Consists IsStatement Lexeme Piece PlainName Statement Symbol Yields
  isStatement_append statementsOf)

/-! ## Lines -/

/-- A line consists of the statements on it. -/
theorem consists_line {t : String} {ss : List Statement} (h : Consists t ss) :
    Consists (line t) ss := by
  have hend : Consists "\n" [] := .gap (by decide)
  have hline := h.append hend
  rwa [List.append_nil] at hline

/-! ## Statements that depend on the dialect -/

/-- The imports of a module. -/
def importStatements (d : Dialect) (m : ModuleContent) : List Statement :=
  (if m.fragments.isEmpty then [] else [.imports "z" (quotedBody d.validatorPath)]) ++
    if d.typed then [.imports promptType (quotedBody (d.importPath typesStem))] else []

/-- The export of a constant in a statement of its own. -/
def exportStatements (d : Dialect) (x : String) : List Statement :=
  match d.style with
  | .esm => []
  | .commonJs => [.exports x]

/-- The name for the type that goes with a validator. -/
def aliasStatements (d : Dialect) (x : String) : List Statement :=
  if d.typed then [.names (typeNameOf x) x] else []

/-- Whether a statement is known and binds no constant. -/
def IsWiring (s : Statement) : Prop := s.isRead = true ∧ s.bound? = none

/-- Statements that bind no constants add none. -/
theorem filterMap_bound?_eq_nil {ss : List Statement} (h : ∀ s ∈ ss, IsWiring s) :
    ss.filterMap Statement.bound? = [] :=
  List.filterMap_eq_nil_iff.mpr fun s hs => (h s hs).2

/-- Exports bind no constants. -/
theorem isWiring_of_mem_exportStatements {d : Dialect} {x : String} :
    ∀ s ∈ exportStatements d x, IsWiring s := by
  rw [exportStatements]
  cases d.style with
  | esm => exact nofun
  | commonJs => exact List.forall_mem_singleton.mpr ⟨rfl, rfl⟩

/-- Names for types bind no constants. -/
theorem isWiring_of_mem_aliasStatements {d : Dialect} {x : String} :
    ∀ s ∈ aliasStatements d x, IsWiring s := by
  rw [aliasStatements]
  split
  · exact List.forall_mem_singleton.mpr ⟨rfl, rfl⟩
  · exact nofun

/-- Imports bind no constants. -/
theorem isWiring_of_mem_importStatements {d : Dialect} {m : ModuleContent} :
    ∀ s ∈ importStatements d m, IsWiring s := by
  rw [importStatements]
  refine List.forall_mem_append.mpr ⟨?_, ?_⟩
  · split
    · exact nofun
    · exact List.forall_mem_singleton.mpr ⟨rfl, rfl⟩
  · split
    · exact List.forall_mem_singleton.mpr ⟨rfl, rfl⟩
    · exact nofun

/-- A name that is made from a label stands inside of a statement. -/
theorem MadeName.piece {x : String} (h : MadeName x) : Piece Lexeme.isInner [] [] x :=
  Piece.word fun c hc => Script.isWord_of_isAlphanum (h.alphanum c hc)

/-- A statement that exports a name. -/
theorem consists_export {x : String} (h : MadeName x) :
    Consists ("module.exports." ++ x ++ " = " ++ x ++ ";") [.exports x] := by
  have hinner : Piece Lexeme.isInner [] [] ("module.exports." ++ x ++ " = " ++ x) :=
    (((Piece.code (by decide)).beside h.piece).beside (.code (by decide))).beside h.piece
  refine .read (isStatement_append hinner [] (by decide)) (yields_export h.plainName)
    fun value => ?_
  simp [exportSymbols, Script.statement?]

/-- A statement that gives a name to the type that goes with a validator. -/
theorem consists_alias {start x : String} {ss : List Symbol} (h : MadeName x)
    (hpiece : Piece Lexeme.isInner [] [] start) (hstart : Yields [] start ss [])
    (hss : ∀ value, Script.statement? value (ss ++ typeSymbols x (typeNameOf x)) =
      some (.names (typeNameOf x) x)) :
    Consists (start ++ typeNameOf x ++ " = z.infer<typeof " ++ x ++ ">;")
      [.names (typeNameOf x) x] := by
  have hinner : Piece Lexeme.isInner [] []
      (start ++ typeNameOf x ++ " = z.infer<typeof " ++ x) :=
    ((hpiece.beside h.typeNameOf.piece).beside (.code (by decide))).beside h.piece
  exact .read (isStatement_append hinner ['>'] (by decide))
    (yields_type h.plainName h.typeNameOf.plainName hstart) hss

/-- What follows the statement that binds a validator. -/
theorem consists_declarations (d : Dialect) {x : String} (h : MadeName x) :
    Consists (Fragment.declarations d x) (exportStatements d x ++ aliasStatements d x) := by
  have hblank : Consists "\n" [] := .gap (by decide)
  have htype : Yields [] "type " [.keyword .type] [] := .code (by decide) rfl
  -- a name for a type, behind a mark that exports it or not
  have halias : ∀ mark ss, Piece Lexeme.isInner [] [] mark → Yields [] mark ss [] →
      (∀ value, Script.statement? value (ss ++ [Symbol.keyword .type] ++
        typeSymbols x (typeNameOf x)) = some (.names (typeNameOf x) x)) →
      Consists (if d.typed then line (mark ++ "type " ++ typeNameOf x ++ " = z.infer<typeof " ++
        x ++ ">;") else "") (aliasStatements d x) := by
    intro mark ss hmark hyields hss
    rw [aliasStatements]
    split
    · exact consists_line (consists_alias h (hmark.beside (.code (by decide)))
        (hyields.append htype) hss)
    · exact .gap (by decide)
  rw [Fragment.declarations, exportStatements]
  cases d.style with
  | esm =>
    have hexport : Yields [] "export " [.keyword .exporting] [] := .code (by decide) rfl
    have hnone : Consists "" [] := .gap (by decide)
    exact hblank.append (hnone.append (halias "export " _ (.code (by decide)) hexport fun value => by
      simp [typeSymbols, Script.statement?, Script.statement?.named, Script.inferred]))
  | commonJs =>
    have hempty : Yields [] "" [] [] := .code (by decide) rfl
    exact hblank.append ((consists_line (consists_export h)).append
      (halias "" _ (.code (by decide)) hempty fun value => by
        simp [typeSymbols, Script.statement?, Script.statement?.named, Script.inferred]))

/-- An import of the library, and one of the type of prompts. -/
theorem ModuleContent.consists_imports (d : Dialect) (m : ModuleContent) :
    Consists (m.imports d) (importStatements d m) := by
  have hesm : Consists ("import \x7b z \x7d from " ++ Script.quote d.validatorPath ++ ";")
      [.imports "z" (quotedBody d.validatorPath)] := by
    have hinner : Piece Lexeme.isInner [] []
        ("import \x7b z \x7d from " ++ Script.quote d.validatorPath) :=
      (Piece.code (by decide)).beside (Piece.quote _)
    exact .read (isStatement_append hinner [] (by decide)) (yields_libraryImport _) fun _ => rfl
  have hcommonJs : Consists ("const \x7b z \x7d = require(" ++ Script.quote d.validatorPath ++ ");")
      [.imports "z" (quotedBody d.validatorPath)] := by
    have hinner : Piece Lexeme.isInner [] [.round]
        ("const \x7b z \x7d = require(" ++ Script.quote d.validatorPath) :=
      (Piece.code (by decide)).append (Piece.quote _)
    exact .read (isStatement_append hinner [')'] (by decide)) (yields_libraryRequire _) fun _ => rfl
  have htype : Consists ("import type \x7b " ++ promptType ++ " \x7d from " ++
      Script.quote (d.importPath typesStem) ++ ";")
      [.imports promptType (quotedBody (d.importPath typesStem))] := by
    have hinner : Piece Lexeme.isInner [] [] ("import type \x7b " ++ promptType ++ " \x7d from " ++
        Script.quote (d.importPath typesStem)) :=
      (Piece.wrap (p := [.curly]) (.code (by decide)) (.code (by decide)) (.code (by decide))).beside
        (Piece.quote _)
    exact .read (isStatement_append hinner [] (by decide)) (yields_typeImport _) fun _ => rfl
  rw [imports, importStatements]
  refine .append ?_ ?_
  · split
    · exact .gap (by decide)
    · cases d.style with
      | esm => exact consists_line hesm
      | commonJs => exact consists_line hcommonJs
  · split
    · exact consists_line htype
    · exact .gap (by decide)

/-! ## Statements that do not -/

/-- What stands in front of the equals sign of a constant. -/
theorem isFront_of_mem_bound (d : Dialect) {x typing : String} (h : MadeName x)
    (htyping : typing = "" ∨ typing = ": " ++ promptType) :
    ∀ c ∈ (bindingKeyword d ++ x ++ typing).toList, Script.isFront c = true := by
  -- a keyword, a name and perhaps a type: none of them holds an equals sign or a semicolon
  have hkeyword : ∀ c ∈ (bindingKeyword d).toList, Script.isFront c = true := by
    rw [bindingKeyword]
    cases d.style with
    | esm => exact List.all_eq_true.mp (by decide)
    | commonJs => exact List.all_eq_true.mp (by decide)
  have hname : ∀ c ∈ x.toList, Script.isFront c = true := by
    intro c hc
    have hword := Script.isWord_of_isAlphanum (h.alphanum c hc)
    have hne : c ≠ ';' ∧ c ≠ '=' :=
      ⟨Script.ne_of_isWord hword (by decide), Script.ne_of_isWord hword (by decide)⟩
    simp [Script.isFront, Script.isCode_of_isWord hword, hne]
  have htype : ∀ c ∈ typing.toList, Script.isFront c = true := by
    obtain rfl | rfl := htyping
    · exact List.all_eq_true.mp (by decide)
    · exact List.all_eq_true.mp (by decide)
  simp only [String.toList_append, List.forall_mem_append]
  exact ⟨⟨hkeyword, hname⟩, htype⟩

/-- The keywords in front of a constant. -/
theorem exists_yields_bindingKeyword (d : Dialect) :
    ∃ ss, (ss = [.keyword .const] ∨ ss = [.keyword .exporting, .keyword .const]) ∧
      Yields [] (bindingKeyword d) ss [] := by
  rw [bindingKeyword]
  cases d.style with
  | esm => exact ⟨_, .inr rfl, .code (by decide) rfl⟩
  | commonJs => exact ⟨_, .inl rfl, .code (by decide) rfl⟩

/-- A constant that is bound by a statement of the dialect.  The prompt object may come with its
type, which is `typing`. -/
theorem consists_bound (d : Dialect) {x value typing : String} (h : MadeName x)
    (htyping : typing = "" ∨ typing = ": " ++ promptType)
    (hvalue : Piece Lexeme.isInner [] [] value) :
    Consists (bindingKeyword d ++ x ++ typing ++ " = " ++ value ++ ";") [.binds x value] := by
  have hx := h.plainName
  have hcode := isFront_of_mem_bound d h htyping
  obtain ⟨ss, hss, hstart⟩ := exists_yields_bindingKeyword d
  -- with or without a type, the equals sign follows
  obtain rfl | rfl := htyping
  · have hfront : Yields [] (bindingKeyword d ++ x ++ "" ++ " = ")
        (ss ++ [Symbol.name x.toList, .mark '=']) [] := by
      rw [String.append_empty]
      exact hx.yields hstart (by decide) (by decide) rfl
    refine .bound hcode hfront (fun text rest => ?_) hvalue
    obtain rfl | rfl := hss <;> simp [Script.statement?]
  · have hcolon : Yields [] (bindingKeyword d ++ x ++ ": ")
        (ss ++ [Symbol.name x.toList, .mark ':']) [] :=
      hx.yields hstart (by decide) (by decide) rfl
    have hfront : Yields [] (bindingKeyword d ++ x ++ (": " ++ promptType) ++ " = ")
        (ss ++ [Symbol.name x.toList, .mark ':'] ++
          [Symbol.name promptType.toList, .mark '=']) [] := by
      rw [← String.append_assoc]
      exact plainName_promptType.yields hcolon (by decide) (by decide) rfl
    refine .bound hcode hfront (fun text rest => ?_) hvalue
    obtain rfl | rfl := hss <;> simp [Script.statement?]

/-- The statements of a validator. -/
def Fragment.statements (d : Dialect) (f : Fragment) : List Statement :=
  .binds f.binding f.validator.source ::
    (exportStatements d f.binding ++ aliasStatements d f.binding)

/-- The text of a validator consists of its statements. -/
theorem Fragment.consists_source (d : Dialect) {f : Fragment} (h : MadeName f.binding) :
    Consists (f.source d) (f.statements d) := by
  have hbound := consists_bound d h (.inl rfl) (Validator.piece_source f.validator)
  rw [String.append_empty] at hbound
  have hsource := hbound.append (consists_declarations d h)
  rw [Fragment.source_eq, Fragment.statements]
  simpa only [String.append_assoc, List.cons_append, List.nil_append] using hsource

namespace ModuleContent

variable {m : ModuleContent}

/-- The prompt object as a value: its members between braces. -/
def object (m : ModuleContent) : String := "\x7b\n" ++ m.members ++ "\x7d"

/-- The statement of the prompt object. -/
theorem consists_object (d : Dialect) (h : m.Named) (hname : MadeName m.binding) :
    Consists (m.opening d ++ m.literal) [.binds m.binding m.object] := by
  have hvalue : Piece Lexeme.isInner [] [] m.object :=
    .wrap (p := [.curly]) (.code (by decide)) (piece_members h) (.code (by decide))
  have htyping : (if d.typed then ": " ++ promptType else "") = "" ∨
      (if d.typed then ": " ++ promptType else "") = ": " ++ promptType := by
    cases d.typed with
    | false => exact .inl rfl
    | true => exact .inr rfl
  have hobject := consists_line (consists_bound d hname htyping hvalue)
  have hend : line "\x7d;" = "\x7d" ++ line ";" := rfl
  rw [opening_eq, literal_eq_members, hend]
  rw [object] at hobject ⊢
  simpa only [line, String.append_assoc] using hobject

/-- The statements of a module. -/
def statements (d : Dialect) (m : ModuleContent) : List Statement :=
  importStatements d m ++ m.fragments.flatMap (Fragment.statements d) ++
    [.binds m.binding m.object] ++ exportStatements d m.binding

/-- The text of the module of a prompt consists of its statements. -/
theorem consists_source (d : Dialect) {p : Prompt} (h : ofPrompt p = .ok m) :
    Consists (m.source d) (m.statements d) := by
  obtain ⟨hbinding, -, -, -, -, hfragments⟩ := names_of_ofPrompt h
  have hname : MadeName m.binding := hbinding ▸ madeName_bindingOf p
  have hmade : ∀ f ∈ m.fragments, MadeName f.binding := fun f hf =>
    madeName_of_mem_validatorNames (hfragments ▸ List.mem_map_of_mem hf)
  have hblank : Consists "\n" [] := .gap (by decide)
  have hvalidators : Consists (m.validators d) (m.fragments.flatMap (Fragment.statements d)) :=
    .flatMap fun f hf => hblank.append (Fragment.consists_source d (hmade f hf))
  -- only in one of the styles the prompt object is exported by a statement of its own
  have hclosing : Consists (m.closing d) (exportStatements d m.binding) := by
    rw [closing, exportStatements]
    cases d.style with
    | esm => exact .gap (by decide)
    | commonJs => exact consists_line (consists_export hname)
  have hobject := consists_object d (named_of_ofPrompt h) hname
  have hsource := ((((consists_imports d m).append hvalidators).append hblank).append
    hobject).append hclosing
  rw [List.append_nil] at hsource
  rw [source, statements]
  simpa only [String.append_assoc] using hsource

/-! ## Constants -/

/-- The constants of a module, each with the text of its value. -/
def constants (m : ModuleContent) : List (String × String) :=
  m.fragments.map (fun f => (f.binding, f.validator.source)) ++ [(m.binding, m.object)]

/-- All statements of a module are known. -/
theorem isRead_of_mem_statements {d : Dialect} : ∀ s ∈ m.statements d, s.isRead = true := by
  have hobject : ∀ s ∈ [Statement.binds m.binding m.object], s.isRead = true :=
    List.forall_mem_singleton.mpr rfl
  have hvalidators : ∀ s ∈ m.fragments.flatMap (Fragment.statements d), s.isRead = true := by
    refine List.forall_mem_flatMap.mpr fun f _ => List.forall_mem_cons.mpr ⟨rfl, ?_⟩
    exact List.forall_mem_append.mpr ⟨fun s hs => (isWiring_of_mem_exportStatements s hs).1,
      fun s hs => (isWiring_of_mem_aliasStatements s hs).1⟩
  simp only [statements, List.forall_mem_append]
  exact ⟨⟨⟨fun s hs => (isWiring_of_mem_importStatements s hs).1, hvalidators⟩, hobject⟩,
    fun s hs => (isWiring_of_mem_exportStatements s hs).1⟩

/-- The constants among the statements of a module, which no dialect has a say in. -/
theorem filterMap_bound?_statements (d : Dialect) :
    (m.statements d).filterMap Statement.bound? = m.constants := by
  have hvalidator : ∀ f : Fragment,
      (f.statements d).filterMap Statement.bound? = [(f.binding, f.validator.source)] := by
    intro f
    have hbound : (Statement.binds f.binding f.validator.source).bound? =
        some (f.binding, f.validator.source) := rfl
    -- a validator binds one constant, and exporting it or naming its type binds none
    rw [Fragment.statements, List.filterMap_cons_some hbound, List.filterMap_append,
      filterMap_bound?_eq_nil isWiring_of_mem_exportStatements,
      filterMap_bound?_eq_nil isWiring_of_mem_aliasStatements, List.append_nil]
  have hvalidators : (m.fragments.flatMap (Fragment.statements d)).filterMap Statement.bound? =
      m.fragments.map fun f => (f.binding, f.validator.source) := by
    rw [List.filterMap_flatMap, List.map_eq_flatMap]
    exact congrArg (List.flatMap · m.fragments) (funext hvalidator)
  rw [statements, List.filterMap_append, List.filterMap_append, List.filterMap_append,
    filterMap_bound?_eq_nil isWiring_of_mem_importStatements, hvalidators,
    filterMap_bound?_eq_nil isWiring_of_mem_exportStatements, List.nil_append, List.append_nil]
  rfl

/-- The object starts with the name of the prompt, and its last line is a brace. -/
theorem exists_object_eq (m : ModuleContent) :
    ∃ rest, m.object = "\x7b\nname: " ++ Script.quote m.prompt.name ++ rest ++ "\x7d" := by
  obtain ⟨more, hmore⟩ :
      ∃ more, m.members = line ("name: " ++ Script.quote m.prompt.name ++ ",") ++ more := by
    simp only [members, String.append_assoc]
    exact ⟨_, rfl⟩
  have hstart : "\x7b\nname: " = "\x7b\n" ++ "name: " := rfl
  refine ⟨"," ++ "\n" ++ more, ?_⟩
  simp only [object, hmore, line, hstart, String.append_assoc]

end ModuleContent

/-! ## Two dialects -/

/-- The module of a prompt, with the names by which it is referred to. -/
structure PromptModule where
  file : OutputFile
  /-- The name of the prompt object. -/
  binding : String
  /-- The name of the module, without an extension. -/
  stem : String
deriving DecidableEq, Repr

/-- The module of a prompt in a dialect. -/
def promptModule (d : Dialect) (p : Prompt) : Except CompileError PromptModule := do
  let m ← moduleOf p
  return ⟨m.file d, m.binding, m.stem⟩

namespace PromptModule

/-- The statements of a module. -/
def statements (a : PromptModule) : List Statement := statementsOf a.file.contents

/-- The constants that a module binds, in order, each with the text of its value. -/
def constants (a : PromptModule) : List (String × String) := a.statements.filterMap Statement.bound?

/-- What holds of the module of a prompt in a dialect: its statements are constants, imports, exports
and names for types.  The constants are validators and, after them, the prompt object. -/
structure IsFor (p : Prompt) (d : Dialect) (a : PromptModule) : Prop where
  language : a.file.language = d.language
  path : a.file.path = d.fileName a.stem
  isRead : ∀ s ∈ a.statements, s.isRead = true
  names : a.constants.map Prod.fst = ModuleContent.validatorNames p ++ [a.binding]
  object : ∃ rest, a.constants.getLast? =
    some (a.binding, "\x7b\nname: " ++ Script.quote p.name ++ rest ++ "\x7d")

end PromptModule

/-- The module of a prompt is one for this prompt and dialect, and its constants are those of its
content. -/
theorem isFor_of_promptModule {d : Dialect} {p : Prompt} {m : ModuleContent}
    (h : moduleOf p = .ok m) : ∃ a, promptModule d p = .ok a ∧ a.IsFor p d ∧
      a.binding = m.binding ∧ a.stem = m.stem ∧ a.constants = m.constants := by
  have hcontent := Compiler.moduleOf_eq_ok h
  obtain ⟨hbinding, -, hprompt, -, -, hfragments⟩ := ModuleContent.names_of_ofPrompt hcontent
  let a : PromptModule := ⟨m.file d, m.binding, m.stem⟩
  have hstatements : a.statements = m.statements d :=
    (ModuleContent.consists_source d hcontent).statementsOf_eq
  -- the constants are read off the statements, which the text consists of
  have hconstants : a.constants = m.constants := by
    rw [PromptModule.constants, hstatements, ModuleContent.filterMap_bound?_statements]
  refine ⟨a, ?_, ⟨rfl, rfl, ?_, ?_, ?_⟩, rfl, rfl, hconstants⟩
  · rw [promptModule, h]
    rfl
  · rw [hstatements]
    exact ModuleContent.isRead_of_mem_statements
  · rw [hconstants, ModuleContent.constants, List.map_append, List.map_map, ← hfragments]
    rfl
  · obtain ⟨rest, hobject⟩ := m.exists_object_eq
    refine ⟨rest, ?_⟩
    rw [hconstants, ModuleContent.constants, List.getLast?_concat, ← hprompt, ← hobject]

/-- Whatever the prompt is, two dialects agree on it.  Either there is a module in neither of them,
for the same reason, or there is one in both, with the same names, and the same constants are bound to
the same texts in the same order; all other statements are imports, exports and names for types. -/
theorem same_in_all_dialects (p : Prompt) (d d' : Dialect) :
    (∃ e, promptModule d p = .error e ∧ promptModule d' p = .error e) ∨
    ∃ a b, promptModule d p = .ok a ∧ promptModule d' p = .ok b ∧ a.IsFor p d ∧ b.IsFor p d' ∧
      a.binding = b.binding ∧ a.stem = b.stem ∧ a.constants = b.constants := by
  cases h : moduleOf p with
  | error e =>
    refine .inl ⟨e, ?_, ?_⟩
    · rw [promptModule, h]
      rfl
    · rw [promptModule, h]
      rfl
  | ok m =>
    obtain ⟨a, ha, hfor, hbinding, hstem, hconstants⟩ := isFor_of_promptModule (d := d) h
    obtain ⟨b, hb, hfor', hbinding', hstem', hconstants'⟩ := isFor_of_promptModule (d := d') h
    exact .inr ⟨a, b, ha, hb, hfor, hfor', hbinding.trans hbinding'.symm, hstem.trans hstem'.symm,
      hconstants.trans hconstants'.symm⟩

end Promptwright
