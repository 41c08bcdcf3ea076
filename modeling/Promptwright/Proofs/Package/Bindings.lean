import Promptwright.Cli.Run
import Promptwright.Proofs.Json.NumberText
import Promptwright.Proofs.Package.Clauses
import Promptwright.Proofs.Package.Paths
import Promptwright.Proofs.Prompt.Loaded
import Promptwright.Proofs.Text.Labels

/-!
# The names that a package binds

The name of a prompt object is its label in camel case and its version.  Paths are made from another
spelling of the label, so prompts whose modules have different paths may still share a name; their
paths then differ in underscores only, and the index exports the name once for each of them.  All
names are letters and digits, but one whose label starts with a digit is no identifier.

## Key results

- `bindingOf_eq_iff`: when prompts share a name
- `bindingOf_ne`: no validator, and no type of one, has the name of the prompt
- `nodup_exports_iff`: what the index exports
- `isIdentifier_iff`: which of the names are identifiers
-/

namespace Promptwright

open Script (Clause NameText clausesOf)

/-! ## Names of prompts -/

namespace ModuleContent

/-- The digits at the end of a text. -/
theorem append_toDigits_inj {a b : List Char} {m n : Nat}
    (ha : ∀ c, a.getLast? = some c → c.isDigit = false)
    (hb : ∀ c, b.getLast? = some c → c.isDigit = false)
    (h : a ++ Nat.toDigits 10 m = b ++ Nat.toDigits 10 n) : a = b ∧ m = n := by
  have hdigits : ∀ n, ∀ c ∈ (Nat.toDigits 10 n).reverse, c.isDigit = true := fun n c hc =>
    Nat.isDigit_of_mem_toDigits (by decide) (by decide) (List.mem_reverse.mp hc)
  have hreverse := congrArg List.reverse h
  rw [List.reverse_append, List.reverse_append] at hreverse
  have hlast : ∀ {l : List Char}, (∀ c, l.getLast? = some c → c.isDigit = false) →
      ∀ c, l.reverse.head? = some c → c.isDigit = false := by
    intro l hl c hc
    rw [List.head?_reverse] at hc
    exact hl c hc
  -- read from the end, the digits stop at the first other character
  obtain ⟨hnum, hrest⟩ :=
    Text.append_inj_of_span (hdigits m) (hdigits n) (hlast ha) (hlast hb) hreverse
  exact ⟨List.reverse_injective hrest, toDigits_injective (List.reverse_injective hnum)⟩

/-- The characters of the name of a prompt. -/
theorem toList_bindingOf (p : Prompt) :
    (bindingOf p).toList = (Identifiers.forBinding p.name).camel.toList ++ "PromptV".toList ++
      Nat.toDigits 10 p.version := by
  rw [bindingOf, String.toList_append, String.toList_append, Nat.toString_eq_ofList_toDigits,
    String.toList_ofList (l := Nat.toDigits 10 p.version)]

/-- Prompts share a name exactly if their labels have the same spelling in camel case, and their
versions are the same. -/
theorem bindingOf_eq_iff {p q : Prompt} : bindingOf p = bindingOf q ↔
    p.version = q.version ∧
      (Identifiers.forBinding p.name).camel = (Identifiers.forBinding q.name).camel := by
  constructor
  · intro h
    have hlist := congrArg String.toList h
    rw [toList_bindingOf, toList_bindingOf] at hlist
    -- in front of the digits of the version stands a `V`
    have hlast : ∀ (label : String) c, ((Identifiers.forBinding label).camel.toList ++
        "PromptV".toList).getLast? = some c → c.isDigit = false := by
      intro label c hc
      rw [List.getLast?_append_of_ne_nil _ (by decide)] at hc
      obtain rfl : 'V' = c := Option.some.inj hc
      decide
    obtain ⟨hlabel, hversion⟩ := append_toDigits_inj (hlast p.name) (hlast q.name) hlist
    exact ⟨hversion, String.toList_inj.mp (List.append_cancel_right hlabel)⟩
  · rintro ⟨hversion, hlabel⟩
    rw [bindingOf, bindingOf, hversion, hlabel]

/-- Without its first character, a text still has what follows a part that is not empty. -/
theorem exists_tail_append (a : List Char) (c : Char) (r : List Char) :
    ∃ b, (a ++ c :: r).tail = b ++ r := by
  cases a with
  | nil => exact ⟨[], rfl⟩
  | cons d a => exact ⟨a ++ [c], by simp⟩

/-- The name of a type differs from that of its validator in the first character only. -/
theorem tail_typeNameOf (x : String) : (typeNameOf x).toList.tail = x.toList.tail := by
  rw [typeNameOf, String.toList_ofList]
  cases x.toList <;> rfl

/-- What the name of a prompt ends in, whatever its first character is. -/
theorem exists_tail_bindingOf (p : Prompt) :
    ∃ b, (bindingOf p).toList.tail = b ++ ("romptV".toList ++ Nat.toDigits 10 p.version) := by
  have hbinding : (bindingOf p).toList =
      (Identifiers.forBinding p.name).camel.toList ++
        'P' :: ("romptV".toList ++ Nat.toDigits 10 p.version) := by
    rw [toList_bindingOf, List.append_assoc]
    rfl
  rw [hbinding]
  exact exists_tail_append _ _ _

/-- The name for a tool ends in a letter, and that of the prompt in a digit. -/
theorem tail_bindingOf_ne_parameters (p : Prompt) (t : Tool) :
    (bindingOf p).toList.tail ≠ (ToolEntry.ofTool t).parameters.toList.tail := by
  obtain ⟨b, hb⟩ := exists_tail_bindingOf p
  obtain ⟨a, ha⟩ := exists_tail_append (Identifiers.forBinding t.name).camel.toList 'S'
    "chema".toList
  have hparameters : (ToolEntry.ofTool t).parameters.toList =
      (Identifiers.forBinding t.name).camel.toList ++ 'S' :: "chema".toList :=
    String.toList_append
  intro heq
  rw [hb, hparameters, ha, ← List.append_assoc] at heq
  have hlast := congrArg List.getLast? heq
  rw [List.getLast?_append_of_ne_nil _ Nat.toDigits_ne_nil,
    List.getLast?_append_of_ne_nil _ (by decide)] at hlast
  have hdigit := Nat.isDigit_of_mem_toDigits (c := 'a') (by decide) (by decide)
    (List.mem_of_getLast? hlast)
  exact absurd hdigit (by decide)

/-- The names for the answer and for the prompt have the same digits, and other letters in front of
them. -/
theorem tail_bindingOf_ne_schemaBindingOf (p : Prompt) :
    (bindingOf p).toList.tail ≠ (schemaBindingOf p).toList.tail := by
  obtain ⟨b, hb⟩ := exists_tail_bindingOf p
  obtain ⟨a, ha⟩ := exists_tail_append (Identifiers.forBinding p.name).camel.toList 'S'
    ("chemaV".toList ++ Nat.toDigits 10 p.version)
  have hschema : (schemaBindingOf p).toList =
      (Identifiers.forBinding p.name).camel.toList ++
        'S' :: ("chemaV".toList ++ Nat.toDigits 10 p.version) := by
    rw [schemaBindingOf, String.toList_append, String.toList_append,
      Nat.toString_eq_ofList_toDigits, String.toList_ofList (l := Nat.toDigits 10 p.version),
      List.append_assoc]
    rfl
  intro heq
  rw [hb, hschema, ha] at heq
  obtain ⟨-, hend⟩ := List.append_inj' heq (by simp)
  exact absurd (List.append_cancel_right hend) (by decide)

/-- The name of a validator differs from that of the prompt behind its first character. -/
theorem tail_bindingOf_ne {p : Prompt} {x : String} (h : x ∈ validatorNames p) :
    (bindingOf p).toList.tail ≠ x.toList.tail := by
  obtain h | h := List.mem_append.mp h
  · obtain ⟨t, -, rfl⟩ := List.mem_map.mp h
    exact tail_bindingOf_ne_parameters p t
  · obtain ⟨-, -, rfl⟩ := Option.map_eq_some_iff.mp (Option.mem_toList.mp h)
    exact tail_bindingOf_ne_schemaBindingOf p

/-- No validator has the name of the prompt, and neither has the type of one. -/
theorem bindingOf_ne {p : Prompt} {x : String} (h : x ∈ validatorNames p) :
    bindingOf p ≠ x ∧ bindingOf p ≠ typeNameOf x := by
  have htail := tail_bindingOf_ne h
  constructor
  · rintro rfl
    exact htail rfl
  · intro heq
    rw [heq, tail_typeNameOf] at htail
    exact htail rfl

/-- The type of prompts has the name of no prompt. -/
theorem bindingOf_ne_promptType (p : Prompt) : bindingOf p ≠ promptType := by
  intro h
  have hlast := congrArg (fun x => x.toList.getLast?) h
  simp only [toList_bindingOf] at hlast
  rw [List.getLast?_append_of_ne_nil _ Nat.toDigits_ne_nil] at hlast
  have hdigit := Nat.isDigit_of_mem_toDigits (c := 'n') (by decide) (by decide)
    (List.mem_of_getLast? hlast)
  exact absurd hdigit (by decide)

/-- Prompts with one name and different paths have paths that differ in underscores only. -/
theorem filter_stemOf_of_bindingOf_eq {p q : Prompt} (h : bindingOf p = bindingOf q) :
    (stemOf p).toList.filter (· != '_') = (stemOf q).toList.filter (· != '_') := by
  obtain ⟨hversion, hcamel⟩ := bindingOf_eq_iff.mp h
  have hslug := Identifiers.filter_fileSlug_of_camel_eq hcamel
  simp only [stemOf, String.toList_append, List.filter_append, hslug, hversion]

end ModuleContent

/-! ## The names that scripts declare and export -/

/-- The names that a script declares. -/
def declaredNames (script : String) : List String := (clausesOf script).filterMap Clause.declared?

/-- The names that a script exports. -/
def exportedNames (script : String) : List String := (clausesOf script).filterMap Clause.exported?

/-- The names of a validator and, in typed dialects, of its type. -/
def namesOf (typed : Bool) (x : String) : List String :=
  if typed then [x, typeNameOf x] else [x]

/-- The names that the statements of validators declare. -/
theorem filterMap_declared_validators (d : Dialect) (xs : List String) :
    (xs.flatMap (validatorClauses d)).filterMap Clause.declared? =
      xs.flatMap (namesOf d.typed) := by
  obtain ⟨-, -, style, typed, -, -⟩ := d
  rw [List.filterMap_flatMap]
  cases style <;> cases typed <;> rfl

/-- The names that they export. -/
theorem filterMap_exported_validators (d : Dialect) (xs : List String) :
    (xs.flatMap (validatorClauses d)).filterMap Clause.exported? =
      xs.flatMap (namesOf (d.typed && d.style == .esm)) := by
  obtain ⟨-, -, style, typed, -, -⟩ := d
  rw [List.filterMap_flatMap]
  cases style <;> cases typed <;> rfl

/-- The names in the prompt object are those of validators. -/
theorem exists_of_mem_useClauses {p : Prompt} {u : Clause} (h : u ∈ useClauses p) :
    ∃ k x, u = .uses k x ∧ x ∈ ModuleContent.validatorNames p := by
  obtain h | h := List.mem_append.mp h
  · obtain ⟨t, ht, rfl⟩ := List.mem_map.mp h
    exact ⟨_, _, rfl, List.mem_append_left _ (List.mem_map_of_mem ht)⟩
  · obtain ⟨x, hx, rfl⟩ := List.mem_map.mp h
    exact ⟨_, _, rfl, List.mem_append_right _ hx⟩

/-- Neither imports nor uses declare or export a name. -/
theorem filterMap_moduleClauses {f : Clause → Option String} (himports : ∀ x, f (.imports x) = none)
    (hsource : ∀ body, f (.source body) = none) (huses : ∀ k x, f (.uses k x) = none)
    (d : Dialect) (p : Prompt) :
    (moduleClauses d p).filterMap f =
      ((ModuleContent.validatorNames p).flatMap (validatorClauses d)).filterMap f ++
        ((openingClauses d (ModuleContent.bindingOf p)).filterMap f ++
          (closingClauses d (ModuleContent.bindingOf p)).filterMap f) := by
  have huse : (useClauses p).filterMap f = [] := by
    rw [List.filterMap_eq_nil_iff]
    intro u hu
    obtain ⟨k, x, rfl, -⟩ := exists_of_mem_useClauses hu
    exact huses k x
  have hlibrary : (libraryClauses d (ModuleContent.validatorNames p)).filterMap f = [] := by
    rw [libraryClauses]
    split
    · rfl
    · simp [himports, hsource]
  have htype : (typeClauses d).filterMap f = [] := by
    rw [typeClauses]
    split
    · simp [himports, hsource]
    · rfl
  -- of the clauses of a module only those of validators and of the prompt object are left
  simp only [moduleClauses, List.filterMap_append, huse, hlibrary, htype, List.nil_append,
    List.append_assoc]

/-- The names that a module declares: those of its validators and of its prompt. -/
theorem filterMap_declared (d : Dialect) (p : Prompt) :
    (moduleClauses d p).filterMap Clause.declared? =
      (ModuleContent.validatorNames p).flatMap (namesOf d.typed) ++
        [ModuleContent.bindingOf p] := by
  rw [filterMap_moduleClauses (fun _ => rfl) (fun _ => rfl) (fun _ _ => rfl),
    filterMap_declared_validators, openingClauses, closingClauses]
  cases d.style <;> rfl

/-- The names that it exports: types of validators only where modules are typed and export by
statements of their own. -/
theorem filterMap_exported (d : Dialect) (p : Prompt) :
    (moduleClauses d p).filterMap Clause.exported? =
      (ModuleContent.validatorNames p).flatMap (namesOf (d.typed && d.style == .esm)) ++
        [ModuleContent.bindingOf p] := by
  rw [filterMap_moduleClauses (fun _ => rfl) (fun _ => rfl) (fun _ _ => rfl),
    filterMap_exported_validators, openingClauses, closingClauses]
  cases d.style <;> rfl

/-- The names that the module of a prompt declares. -/
theorem declaredNames_source {p : Prompt} {m : ModuleContent} (d : Dialect)
    (h : ModuleContent.ofPrompt p = .ok m) : declaredNames (m.source d) =
      (ModuleContent.validatorNames p).flatMap (namesOf d.typed) ++
        [ModuleContent.bindingOf p] := by
  rw [declaredNames, (ModuleContent.says_source d h).clausesOf_eq, filterMap_declared]

/-- The names that it exports. -/
theorem exportedNames_source {p : Prompt} {m : ModuleContent} (d : Dialect)
    (h : ModuleContent.ofPrompt p = .ok m) : exportedNames (m.source d) =
      (ModuleContent.validatorNames p).flatMap (namesOf (d.typed && d.style == .esm)) ++
        [ModuleContent.bindingOf p] := by
  rw [exportedNames, (ModuleContent.says_source d h).clausesOf_eq, filterMap_exported]

/-! ## The index -/

namespace Compiler

variable {c : Compiler} {files : FileTree} {d : Dialect} {ps : List Prompt} {out : List OutputFile}

/-- All modules of prompts have names that are made from labels. -/
theorem madeName_of_mem_modules {ms : List ModuleContent}
    (h : List.Forall₂ (fun p m => ModuleContent.ofPrompt p = .ok m) ps ms) :
    ∀ m ∈ ms, MadeName m.binding := by
  intro m hm
  obtain ⟨p, -, hp⟩ := exists_of_mem_right h hm
  rw [(ModuleContent.names_of_ofPrompt hp).1]
  exact ModuleContent.madeName_bindingOf p

/-- What the index of the modules of prompts says. -/
theorem clausesOf_index {ms : List ModuleContent}
    (h : List.Forall₂ (fun p m => ModuleContent.ofPrompt p = .ok m) ps ms) :
    clausesOf (indexFile d ms).contents = indexTypeClauses d ++
      ms.flatMap fun m => [.exports m.binding, .source (quotedBody (d.importPath m.stem))] :=
  (says_index d fun m hm => (madeName_of_mem_modules h m hm).plainName).clausesOf_eq

/-- The names that the index exports. -/
theorem exportedNames_index {ms : List ModuleContent}
    (h : List.Forall₂ (fun p m => ModuleContent.ofPrompt p = .ok m) ps ms) :
    exportedNames (indexFile d ms).contents =
      (if d.typed then [promptType] else []) ++ ps.map ModuleContent.bindingOf := by
  have hlines : ∀ ms : List ModuleContent, (ms.flatMap fun m => [Clause.exports m.binding,
      .source (quotedBody (d.importPath m.stem))]).filterMap Clause.exported? =
        ms.map ModuleContent.binding := by
    intro ms
    rw [List.filterMap_flatMap, List.map_eq_flatMap]
    rfl
  have hnames : ms.map ModuleContent.binding = ps.map ModuleContent.bindingOf :=
    map_eq_map_of_forall₂ (h.imp fun _ _ hm => (ModuleContent.names_of_ofPrompt hm).1)
  rw [exportedNames, clausesOf_index h, List.filterMap_append, hlines, hnames, indexTypeClauses]
  cases d.typed <;> rfl

/-- The index of a package exports the type of prompts, in typed dialects, and the names of all
prompts in their order.  These names are different exactly if no two prompts of the same version
have labels with the same spelling in camel case.  Where two are the same, the paths of the two
modules still differ, but in underscores only. -/
theorem nodup_exports_iff (h : c.assemble files d ps = .ok out) :
    ∃ rest index, out = rest ++ [index] ∧ index.path = d.fileName "index" ∧
      exportedNames index.contents =
        (if d.typed then [promptType] else []) ++ ps.map ModuleContent.bindingOf ∧
      ((exportedNames index.contents).Nodup ↔ ps.Pairwise fun p q => p.version = q.version →
        (Identifiers.forBinding p.name).camel ≠ (Identifiers.forBinding q.name).camel) ∧
      ps.Pairwise fun p q => ModuleContent.bindingOf p = ModuleContent.bindingOf q →
        ModuleContent.stemOf p ≠ ModuleContent.stemOf q ∧
          (ModuleContent.stemOf p).toList.filter (· != '_') =
            (ModuleContent.stemOf q).toList.filter (· != '_') := by
  obtain ⟨types, ms, -, hms, rfl⟩ := assemble_eq_ok h
  have hexports := exportedNames_index (d := d) hms
  refine ⟨types ++ ms.map (·.file d), indexFile d ms, by rw [List.append_assoc], rfl, hexports,
    ?_, ?_⟩
  -- the type of prompts shares its name with none of them, so it repeats nothing
  · have htype : promptType ∉ ps.map ModuleContent.bindingOf := by
      intro hmem
      obtain ⟨p, -, hp⟩ := List.mem_map.mp hmem
      exact ModuleContent.bindingOf_ne_promptType p hp
    have hnodup : (exportedNames (indexFile d ms).contents).Nodup ↔
        (ps.map ModuleContent.bindingOf).Nodup := by
      rw [hexports]
      cases d.typed with
      | false => rfl
      | true => simp [htype]
    rw [hnodup, List.Nodup, List.pairwise_map]
    apply List.Pairwise.iff
    intro p q
    rw [ne_eq, ModuleContent.bindingOf_eq_iff, not_and]
  · obtain ⟨-, -, hpaths, -⟩ := map_path_of_assemble h
    have hstems := (List.nodup_append.mp hpaths).1
    rw [List.Nodup, List.pairwise_map] at hstems
    refine hstems.imp fun {p q} hne hbinding => ⟨fun hstem => hne (by rw [hstem]), ?_⟩
    exact ModuleContent.filter_stemOf_of_bindingOf_eq hbinding

/-- Two prompts whose labels differ in how they tell words apart. -/
def weatherPrompts (version : Nat) : List Prompt :=
  [{ name := "lookup weather", system := "" }, { name := "lookupWeather", version, system := "" }]

/-- With the same version they make a package whose index exports one name twice. -/
theorem exported_twice :
    ∃ out, ({} : Compiler).assemble ⟨[], []⟩ .nodeEsm (weatherPrompts 1) = .ok out ∧
      out.map OutputFile.path = ["lookup_weather_v1.js", "lookupweather_v1.js", "index.js"] ∧
      ∃ index ∈ out, index.path = "index.js" ∧ exportedNames index.contents =
        ["lookupWeatherPromptV1", "lookupWeatherPromptV1"] ∧
          ¬(exportedNames index.contents).Nodup := by
  have hassemble : ∃ out,
      ({} : Compiler).assemble ⟨[], []⟩ .nodeEsm (weatherPrompts 1) = .ok out ∧
        out.map OutputFile.path = ["lookup_weather_v1.js", "lookupweather_v1.js", "index.js"] :=
    ⟨_, rfl, by decide +kernel⟩
  obtain ⟨out, hout, hpaths⟩ := hassemble
  obtain ⟨types, ms, -, hms, hparts⟩ := assemble_eq_ok hout
  have hexports : exportedNames (indexFile .nodeEsm ms).contents =
      ["lookupWeatherPromptV1", "lookupWeatherPromptV1"] := by
    rw [exportedNames_index hms]
    decide +kernel
  refine ⟨out, hout, hpaths, indexFile .nodeEsm ms, by simp [hparts], rfl, hexports, ?_⟩
  rw [hexports]
  decide

/-- With different versions the names are different. -/
theorem nodup_exports_iff_versions :
    ∃ out, ({} : Compiler).assemble ⟨[], []⟩ .typescript (weatherPrompts 2) = .ok out ∧
      ∃ rest index, out = rest ++ [index] ∧ exportedNames index.contents =
        ["PromptDefinition", "lookupWeatherPromptV1", "lookupWeatherPromptV2"] ∧
          (exportedNames index.contents).Nodup := by
  have hassemble : ∃ out,
      ({} : Compiler).assemble ⟨[], []⟩ .typescript (weatherPrompts 2) = .ok out := ⟨_, rfl⟩
  obtain ⟨out, hout⟩ := hassemble
  obtain ⟨rest, index, hrest, -, hexports, hnodup, -⟩ := nodup_exports_iff hout
  refine ⟨out, hout, rest, index, hrest, ?_, hnodup.mpr ?_⟩
  · rw [hexports]
    decide +kernel
  · decide +kernel

end Compiler

/-! ## Identifiers -/

/-- A name that starts with a letter, an underscore or a dollar sign and goes on with these or with
digits. -/
def IsIdentifier (x : String) : Prop :=
  ∃ c cs, x.toList = c :: cs ∧ Script.isNamePart c = true ∧ c.isDigit = false ∧
    ∀ d ∈ cs, Script.isNamePart d = true

/-- An identifier does not start with a digit. -/
theorem IsIdentifier.any_head? {x : String} (h : IsIdentifier x) :
    x.toList.head?.any Char.isDigit = false := by
  obtain ⟨c, cs, hx, -, hdigit, -⟩ := h
  rw [hx]
  exact hdigit

/-- A name that is made from a label is an identifier if it does not start with a digit. -/
theorem MadeName.isIdentifier_iff_head {x : String} (h : MadeName x) :
    IsIdentifier x ↔ x.toList.head?.any Char.isDigit = false := by
  have hname := h.nameText
  obtain ⟨-, upper, hupper, -⟩ := h
  rw [IsIdentifier]
  rw [NameText] at hname
  -- the name is not empty, so only its first character is in question
  cases hx : x.toList with
  | nil =>
    rw [hx] at hupper
    cases hupper
  | cons c cs =>
    rw [hx] at hname
    constructor
    · rintro ⟨c', cs', heq, -, hdigit, -⟩
      cases heq
      exact hdigit
    · intro hdigit
      refine ⟨c, cs, rfl, hname c List.mem_cons_self, by simpa using hdigit, fun d hd => ?_⟩
      exact hname d (List.mem_cons_of_mem _ hd)

/-- So is the name of its type. -/
theorem any_head?_typeNameOf {x : String} (h : MadeName x) :
    (typeNameOf x).toList.head?.any Char.isDigit = x.toList.head?.any Char.isDigit := by
  have halphanum := h.alphanum
  rw [typeNameOf, String.toList_ofList]
  cases hx : x.toList with
  | nil => rfl
  | cons c cs =>
    rw [hx] at halphanum
    exact (Identifiers.isAlphanum_cases (halphanum c List.mem_cons_self)).2.2.2.2

/-- A label with a capital behind it starts with a digit if the label does. -/
theorem any_head?_camel_append (label : String) {suffix : String} {c : Char} {cs : List Char}
    (hsuffix : suffix.toList = c :: cs) (hc : c.isDigit = false) :
    ((Identifiers.ofLabel label).camel ++ suffix).toList.head?.any Char.isDigit =
      Identifiers.startsWithDigit label.toList := by
  rw [String.toList_append, ← Identifiers.any_head?_camel]
  cases (Identifiers.ofLabel label).camel.toList with
  | nil => simp [hsuffix, hc]
  | cons d ds => rfl

/-- The same for labels in which dashes and underscores end words. -/
theorem any_head?_forBinding_append (label : String) {suffix : String} {c : Char} {cs : List Char}
    (hsuffix : suffix.toList = c :: cs) (hc : c.isDigit = false) :
    ((Identifiers.forBinding label).camel ++ suffix).toList.head?.any Char.isDigit =
      Identifiers.startsWithDigit label.toList := by
  rw [Identifiers.forBinding, any_head?_camel_append _ hsuffix hc, String.toList_ofList,
    Identifiers.startsWithDigit, Identifiers.letters_dashesToSpaces, Identifiers.startsWithDigit]

namespace ModuleContent

/-- The name of a prompt starts with a digit if its label does. -/
theorem any_head?_bindingOf (p : Prompt) : (bindingOf p).toList.head?.any Char.isDigit =
    Identifiers.startsWithDigit p.name.toList := by
  rw [bindingOf, String.append_assoc]
  exact any_head?_forBinding_append _ String.toList_append (by decide)

/-- So does the name of the validator of its answer. -/
theorem any_head?_schemaBindingOf (p : Prompt) :
    (schemaBindingOf p).toList.head?.any Char.isDigit =
      Identifiers.startsWithDigit p.name.toList := by
  rw [schemaBindingOf, String.append_assoc]
  exact any_head?_forBinding_append _ String.toList_append (by decide)

/-- The name of the validator of a tool starts with a digit if the label of the tool does. -/
theorem any_head?_parameters (t : Tool) :
    (ToolEntry.ofTool t).parameters.toList.head?.any Char.isDigit =
      Identifiers.startsWithDigit t.name.toList := by
  exact any_head?_forBinding_append _ rfl (by decide)

/-- Whether one of the labels that names of validators are made from starts with a digit. -/
theorem any_head?_of_mem_validatorNames {p : Prompt} {x : String} (h : x ∈ validatorNames p)
    (hname : Identifiers.startsWithDigit p.name.toList = false)
    (htools : ∀ t ∈ p.tools, Identifiers.startsWithDigit t.name.toList = false) :
    x.toList.head?.any Char.isDigit = false := by
  obtain h | h := List.mem_append.mp h
  · obtain ⟨t, ht, rfl⟩ := List.mem_map.mp h
    rw [any_head?_parameters]
    exact htools t ht
  · obtain ⟨s, -, rfl⟩ := Option.map_eq_some_iff.mp (Option.mem_toList.mp h)
    rw [any_head?_schemaBindingOf]
    exact hname

/-- A name and the name of its type are made from the same label. -/
theorem mem_namesOf {typed : Bool} {x y : String} (h : y ∈ namesOf typed x) (hx : MadeName x) :
    MadeName y ∧ y.toList.head?.any Char.isDigit = x.toList.head?.any Char.isDigit := by
  have hcases : y = x ∨ y = typeNameOf x := by
    rw [namesOf] at h
    split at h
    · simpa using h
    · exact .inl (List.mem_singleton.mp h)
  obtain rfl | rfl := hcases
  · exact ⟨hx, rfl⟩
  · exact ⟨hx.typeNameOf, any_head?_typeNameOf hx⟩

end ModuleContent

/-- All names that a module declares are made from labels. -/
theorem madeName_of_mem_declaredNames {p : Prompt} {m : ModuleContent} {d : Dialect} {x : String}
    (h : ModuleContent.ofPrompt p = .ok m) (hx : x ∈ declaredNames (m.source d)) : MadeName x := by
  rw [declaredNames_source d h] at hx
  obtain hx | hx := List.mem_append.mp hx
  · obtain ⟨y, hy, hx⟩ := List.mem_flatMap.mp hx
    exact (ModuleContent.mem_namesOf hx (ModuleContent.madeName_of_mem_validatorNames hy)).1
  · rw [List.mem_singleton.mp hx]
    exact ModuleContent.madeName_bindingOf p

/-- They are identifiers exactly if none of the labels starts with a digit. -/
theorem forall_isIdentifier_iff {p : Prompt} {m : ModuleContent} (d : Dialect)
    (h : ModuleContent.ofPrompt p = .ok m) :
    (∀ x ∈ declaredNames (m.source d), IsIdentifier x) ↔
      Identifiers.startsWithDigit p.name.toList = false ∧
        ∀ t ∈ p.tools, Identifiers.startsWithDigit t.name.toList = false := by
  have hmade : ∀ x ∈ declaredNames (m.source d), MadeName x :=
    fun _ hx => madeName_of_mem_declaredNames h hx
  rw [declaredNames_source d h] at hmade ⊢
  constructor
  · intro hall
    have hdigit := fun x hx => ((hmade x hx).isIdentifier_iff_head).mp (hall x hx)
    constructor
    · rw [← ModuleContent.any_head?_bindingOf]
      exact hdigit _ (List.mem_append_right _ List.mem_cons_self)
    · intro t ht
      have hname : (ToolEntry.ofTool t).parameters ∈ ModuleContent.validatorNames p :=
        List.mem_append_left _ (List.mem_map_of_mem ht)
      -- in every dialect the validator has its own name among those that are declared
      have hself : (ToolEntry.ofTool t).parameters ∈
          namesOf d.typed (ToolEntry.ofTool t).parameters := by
        rw [namesOf]
        split <;> exact List.mem_cons_self
      rw [← ModuleContent.any_head?_parameters]
      exact hdigit _ (List.mem_append_left _ (List.mem_flatMap.mpr ⟨_, hname, hself⟩))
  · rintro ⟨hname, htools⟩ x hx
    rw [(hmade x hx).isIdentifier_iff_head]
    obtain hx | hx := List.mem_append.mp hx
    -- the name of a type starts with a digit just if that of its validator does
    · obtain ⟨y, hy, hx⟩ := List.mem_flatMap.mp hx
      rw [(ModuleContent.mem_namesOf hx (ModuleContent.madeName_of_mem_validatorNames hy)).2]
      exact ModuleContent.any_head?_of_mem_validatorNames hy hname htools
    · rw [List.mem_singleton.mp hx, ModuleContent.any_head?_bindingOf]
      exact hname

namespace Cli

/-- The name for the validator of a file is made from the name of the file. -/
theorem madeName_bindingOf (file : String) : MadeName (bindingOf file) :=
  MadeName.camel_append _ (.of_all (by decide) (by decide))

/-- It starts with a digit if the name of the file does: dots, dashes and underscores are no
letters. -/
theorem any_head?_bindingOf (file : String) : (bindingOf file).toList.head?.any Char.isDigit =
    Identifiers.startsWithDigit ((Path.stem? file).getD "").toList := by
  rw [bindingOf, any_head?_camel_append _ rfl (by decide), String.toList_ofList,
    Identifiers.startsWithDigit, Identifiers.startsWithDigit, Identifiers.letters_map]
  intro c
  split
  next h =>
    obtain rfl | rfl | rfl := h
    · exact .inr (by decide)
    · exact .inr (by decide)
    · exact .inr (by decide)
  next => exact .inl rfl

end Cli

/-- The names that the module of a prompt declares are those of its validators, in typed dialects
with those of their types, and that of the prompt; and all of them, like the name that is made for
the validator of a file, are letters and digits.  They are identifiers exactly if none of the labels
of the prompt and its tools, or not the name of the file, starts with a digit. -/
theorem isIdentifier_iff {p : Prompt} {m : ModuleContent} (h : ModuleContent.ofPrompt p = .ok m)
    (d : Dialect) (file : String) :
    (declaredNames (m.source d) = (ModuleContent.validatorNames p).flatMap (namesOf d.typed) ++
        [ModuleContent.bindingOf p] ∧
      (∀ x ∈ declaredNames (m.source d), x ≠ "" ∧ NameText x) ∧
      ((∀ x ∈ declaredNames (m.source d), IsIdentifier x) ↔
        Identifiers.startsWithDigit p.name.toList = false ∧
          ∀ t ∈ p.tools, Identifiers.startsWithDigit t.name.toList = false)) ∧
    (Cli.bindingOf file ≠ "" ∧ NameText (Cli.bindingOf file)) ∧
    (IsIdentifier (Cli.bindingOf file) ↔
      Identifiers.startsWithDigit ((Path.stem? file).getD "").toList = false) := by
  have hfile := Cli.madeName_bindingOf file
  refine ⟨⟨declaredNames_source d h, fun x hx => ?_, forall_isIdentifier_iff d h⟩,
    ⟨hfile.plainName.ne, hfile.nameText⟩, ?_⟩
  · have hx := madeName_of_mem_declaredNames h hx
    exact ⟨hx.plainName.ne, hx.nameText⟩
  · rw [hfile.isIdentifier_iff_head, Cli.any_head?_bindingOf]

/-- A document whose prompt and tool have labels that start with digits. -/
def render3d : String :=
  "\x7b\"name\":\"3D render\",\"system_prompt\":\"\"," ++
  "\"tools\":[\x7b\"name\":\"4K_view\",\"description\":\"\"," ++
  "\"parameters\":\x7b\"type\":\"object\"\x7d\x7d]\x7d"

/-- It is read as a prompt, and none of the names that its module declares is an identifier; nor is
that for the validator of a file whose name starts with a digit. -/
theorem no_identifier :
    (∃ p m, Prompt.parse alone .json render3d = .ok p ∧ ModuleContent.ofPrompt p = .ok m ∧
      declaredNames (m.source .typescript) = ["4KViewSchema", "4KViewSchema", "3DRenderPromptV1"] ∧
      ∀ x ∈ declaredNames (m.source .typescript), ¬IsIdentifier x) ∧
    ¬IsIdentifier (Cli.bindingOf "3d.json") := by
  have hnames : ((Prompt.parse alone .json render3d).toOption.bind fun p =>
      (ModuleContent.ofPrompt p).toOption.map fun _ =>
        (ModuleContent.validatorNames p).flatMap (namesOf Dialect.typescript.typed) ++
          [ModuleContent.bindingOf p]) =
        some ["4KViewSchema", "4KViewSchema", "3DRenderPromptV1"] := by decide +kernel
  have hfile : (Cli.bindingOf "3d.json").toList.head?.any Char.isDigit = true := by decide +kernel
  have hdigits : ∀ x ∈ ["4KViewSchema", "4KViewSchema", "3DRenderPromptV1"],
      x.toList.head?.any Char.isDigit = true := by decide
  constructor
  -- the names are those of the module, so it need not be computed
  · cases hp : Prompt.parse alone .json render3d with
    | error e =>
      rw [hp] at hnames
      cases hnames
    | ok p =>
      cases hm : ModuleContent.ofPrompt p with
      | error e =>
        rw [hp, Except.toOption, Option.bind_some, hm] at hnames
        cases hnames
      | ok m =>
        rw [hp, Except.toOption, Option.bind_some, hm] at hnames
        have hnames := (declaredNames_source .typescript hm).trans (Option.some.inj hnames)
        refine ⟨p, m, rfl, hm, hnames, fun x hx hident => ?_⟩
        rw [hnames] at hx
        exact absurd (hdigits x hx) (by rw [hident.any_head?]; decide)
  · intro hident
    exact absurd hfile (by rw [hident.any_head?]; decide)

/-- A prompt and a tool whose labels hold digits behind letters, and no ASCII letters at all. -/
def lateDigits : Prompt where
  name := "render-3D"
  system := ""
  tools := [⟨"天気", "", ⟨.object [("type", .string "object")]⟩⟩]
  schema := some ⟨.object [("type", .string "string")]⟩

/-- Then all names are identifiers. -/
theorem isIdentifier_iff_lateDigits :
    ∃ m, ModuleContent.ofPrompt lateDigits = .ok m ∧
      declaredNames (m.source .nodeCommonJs) =
        ["Schema", "render3DSchemaV1", "render3DPromptV1"] ∧
      (∀ x ∈ declaredNames (m.source .nodeCommonJs), IsIdentifier x) ∧
      IsIdentifier (Cli.bindingOf "schemas/v3.user_id.json") := by
  have hmodule : ∃ m, ModuleContent.ofPrompt lateDigits = .ok m := ⟨_, rfl⟩
  obtain ⟨m, hm⟩ := hmodule
  obtain ⟨⟨hnames, -, hall⟩, -, hfile⟩ :=
    isIdentifier_iff hm .nodeCommonJs "schemas/v3.user_id.json"
  refine ⟨m, hm, ?_, hall.mpr (by decide +kernel), hfile.mpr (by decide +kernel)⟩
  rw [hnames]
  decide +kernel

end Promptwright
