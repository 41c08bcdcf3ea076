import Promptwright.Proofs.Json.Quiet
import Promptwright.Proofs.Package.Pieces
import Promptwright.Proofs.Script.Clauses
import Promptwright.Proofs.Validator.Quiet

/-!
# What generated scripts say about names

The clauses of the module of a prompt are those of its imports, of its validators, and of the prompt
object, in this order; those of the index are one export for each prompt.  Texts of prompts stand in
literals and comments and add nothing.  The names are made from labels, and none is a keyword.

## Key results

- `ModuleContent.names_of_ofPrompt`: the names in a module
- `ModuleContent.says_source`: what a module says
- `says_index`: what the index says
-/

namespace Promptwright

open Script (Clause Keyword NameText PlainName Quiet Says Symbol Yields)

/-! ## Names -/

/-- A name that is made from a label: letters and digits, of which one is in upper case. -/
structure MadeName (x : String) : Prop where
  alphanum : ∀ c ∈ x.toList, c.isAlphanum = true
  upper : ∃ c ∈ x.toList, c.isUpper = true

/-- A capital is an ASCII letter, and it is not in lower case. -/
theorem toUpper_of_isUpper {c : Char} (h : c.isUpper = true) :
    c.toUpper = c ∧ c.isLower = false := by
  have hall : ∀ n : Fin 128, (Char.ofNat n).isUpper = true →
      (Char.ofNat n).toUpper = Char.ofNat n ∧ (Char.ofNat n).isLower = false := by decide
  have halphanum : c.isAlphanum = true := by
    show (c.isUpper || c.isLower || c.isDigit) = true
    rw [h]
    rfl
  have hc := hall ⟨c.toNat, Script.toNat_lt_of_isAlphanum halphanum⟩
  simp only [Char.ofNat_toNat] at hc
  exact hc h

/-- The name of the type that goes with the validator of some name. -/
def typeNameOf (binding : String) : String :=
  String.ofList (Identifiers.upperFirst binding.toList)

namespace MadeName

variable {x : String}

/-- A name that is given. -/
theorem of_all (h : x.toList.all Char.isAlphanum = true)
    (hupper : x.toList.any Char.isUpper = true) : MadeName x :=
  ⟨List.all_eq_true.mp h, List.any_eq_true.mp hupper⟩

/-- Such a name consists of characters of names. -/
theorem nameText (h : MadeName x) : NameText x := by
  intro c hc
  rw [Script.isNamePart, h.alphanum c hc]
  rfl

/-- Such a name is no keyword, since all of these are in lower case. -/
theorem plainName (h : MadeName x) : PlainName x := by
  obtain ⟨c, hc, hupper⟩ := h.upper
  exact Script.plainName_of_mem h.nameText hc (toUpper_of_isUpper hupper).2

/-- The name of its type is of the same kind. -/
theorem typeNameOf (h : MadeName x) : MadeName (typeNameOf x) := by
  obtain ⟨halphanum, c, hc, hupper⟩ := h
  constructor
  · rw [Promptwright.typeNameOf, String.toList_ofList]
    exact Script.forall_mem_upperFirst (P := (Char.isAlphanum · = true))
      (fun _ => Script.isAlphanum_toUpper) halphanum
  -- a capital at the start is left as it is, and one behind it is not touched
  · refine ⟨c, ?_, hupper⟩
    rw [Promptwright.typeNameOf, String.toList_ofList]
    cases hx : x.toList with
    | nil =>
      rw [hx] at hc
      cases hc
    | cons a as =>
      rw [hx] at hc
      obtain rfl | hc := List.mem_cons.mp hc
      · rw [Identifiers.upperFirst, (toUpper_of_isUpper hupper).1]
        exact List.mem_cons_self
      · exact List.mem_cons_of_mem _ hc

/-- A label in camel case with letters and digits behind it. -/
theorem camel_append (label : String) {suffix : String} (h : MadeName suffix) :
    MadeName ((Identifiers.ofLabel label).camel ++ suffix) := by
  obtain ⟨halphanum, c, hc, hupper⟩ := h
  constructor
  · intro d hd
    rw [String.toList_append] at hd
    obtain hd | hd := List.mem_append.mp hd
    · exact Script.isAlphanum_of_mem_camel hd
    · exact halphanum d hd
  · rw [String.toList_append]
    exact ⟨c, List.mem_append_right _ hc, hupper⟩

/-- Letters with a number behind them. -/
theorem append_nat (h : MadeName x) (n : Nat) : MadeName (x ++ toString n) := by
  have hnat : (toString n).toList = Nat.toDigits 10 n := by
    rw [Nat.toString_eq_ofList_toDigits, String.toList_ofList]
  obtain ⟨halphanum, c, hc, hupper⟩ := h
  constructor
  · intro d hd
    rw [String.toList_append, hnat] at hd
    obtain hd | hd := List.mem_append.mp hd
    · exact halphanum d hd
    · have hdigit := Nat.isDigit_of_mem_toDigits (by decide) (by decide) hd
      simp [Char.isAlphanum, hdigit]
  · rw [String.toList_append]
    exact ⟨c, List.mem_append_left _ hc, hupper⟩

end MadeName

namespace ModuleContent

/-- The name of a prompt object. -/
theorem madeName_bindingOf (p : Prompt) : MadeName (bindingOf p) :=
  (MadeName.camel_append _ (.of_all (by decide) (by decide))).append_nat p.version

/-- The name of the validator of an answer. -/
theorem madeName_schemaBindingOf (p : Prompt) : MadeName (schemaBindingOf p) :=
  (MadeName.camel_append _ (.of_all (by decide) (by decide))).append_nat p.version

/-- The name of the validator of the parameters of a tool. -/
theorem madeName_parameters (t : Tool) : MadeName (ToolEntry.ofTool t).parameters :=
  MadeName.camel_append _ (.of_all (by decide) (by decide))

/-- The names of the validators in the module of a prompt: those of its tools and of its answer. -/
def validatorNames (p : Prompt) : List String :=
  p.tools.map (fun t => (ToolEntry.ofTool t).parameters) ++
    (p.schema.map fun _ => schemaBindingOf p).toList

/-- All names of validators are made from labels. -/
theorem madeName_of_mem_validatorNames {p : Prompt} {x : String} (h : x ∈ validatorNames p) :
    MadeName x := by
  obtain h | h := List.mem_append.mp h
  · obtain ⟨t, -, rfl⟩ := List.mem_map.mp h
    exact madeName_parameters t
  · obtain ⟨-, -, rfl⟩ := Option.map_eq_some_iff.mp (Option.mem_toList.mp h)
    exact madeName_schemaBindingOf p

/-- What the module of a prompt takes from it, and the names that are made for it. -/
theorem names_of_ofPrompt {p : Prompt} {m : ModuleContent} (h : ofPrompt p = .ok m) :
    m.binding = bindingOf p ∧ m.stem = stemOf p ∧ m.prompt = p ∧
      m.tools = p.tools.map ToolEntry.ofTool ∧
      m.schema = p.schema.map (fun _ => schemaBindingOf p) ∧
      m.fragments.map Fragment.binding = validatorNames p := by
  obtain ⟨ofTools, htools, h⟩ := bind_eq_ok h
  obtain ⟨ofAnswer, hanswer, h⟩ := bind_eq_ok h
  obtain rfl := Except.ok.inj h
  refine ⟨rfl, rfl, rfl, rfl, rfl, ?_⟩
  -- a fragment for each tool, and one for the answer if it has a schema
  rw [validatorNames, List.map_append]
  congr 1
  · exact map_eq_map_of_forall₂ ((mapM_eq_ok htools).imp fun _ _ => binding_of_ofSchema)
  · rw [answerFragments] at hanswer
    split at hanswer
    next hschema =>
      cases hanswer
      rw [hschema]
      rfl
    next s hschema =>
      obtain ⟨f, hf, hanswer⟩ := bind_eq_ok hanswer
      cases hanswer
      rw [hschema, List.map_singleton, binding_of_ofSchema hf]
      rfl

end ModuleContent

/-! ## Lines -/

/-- The body of the literal that stands for a text. -/
def quotedBody (s : String) : List Char := s.toList.flatMap Script.escapeChar

/-- The end of a line adds nothing to its symbols. -/
theorem yields_line {t : String} {ss : List Symbol} (h : Yields [] t ss []) :
    Yields [] (line t) ss [] := by
  have hend : Yields [] "\n" [] [] := .code (by decide) rfl
  have hline := h.append hend
  rwa [List.append_nil] at hline

/-- Nor does it to what it says. -/
theorem says_line {t : String} {cs : List Clause} (h : Says t cs) : Says (line t) cs := by
  obtain ⟨ss, hyields, hcs⟩ := h
  exact ⟨ss, yields_line hyields, hcs⟩

/-- A member of an object whose value holds no keyword. -/
theorem quiet_member {key t : String} (hkey : Quiet false false key) (h : Quiet false true t) :
    Quiet false false (line (key ++ t ++ ",")) := by
  have hend : Quiet true false "," := .code (by decide)
  exact ((hkey.append h).append hend).append (.code (by decide))

/-- A member of an object whose value is a name. -/
theorem says_member {key x : String} {k : Keyword} (hx : PlainName x)
    (hkey : Yields [] key [.keyword k, .mark ':'] [])
    (hk : ∀ rest, k.clause? (.mark ':' :: .name x.toList :: rest) = some (.uses k x)) :
    Says (line (key ++ x ++ ",")) [.uses k x] := by
  have hline : Yields [] (key ++ x ++ ",")
      [.keyword k, .mark ':', .name x.toList, .mark ','] [] :=
    hx.yields hkey (by decide) (by decide) rfl
  refine ⟨_, yields_line hline, fun rest => ?_⟩
  simp only [List.cons_append, List.nil_append, Script.clauses, hk, Option.toList_some]

/-! ## Validators -/

/-- What the statements of a validator say. -/
def validatorClauses (d : Dialect) (x : String) : List Clause :=
  (match d.style with
    | .esm => [.exports x, .declares .const x]
    | .commonJs => [.declares .const x, .exports x]) ++
  if d.typed then
    (match d.style with
      | .esm => [.exports (typeNameOf x), .declares .type (typeNameOf x)]
      | .commonJs => [.declares .type (typeNameOf x)])
  else []

/-- A statement that binds a validator. -/
theorem says_bound {start x : String} {ss : List Symbol} {cs : List Clause} (hx : PlainName x)
    (hstart : Yields [] start ss [])
    (hcs : ∀ rest, Script.clauses (ss ++ Symbol.name x.toList :: .mark '=' :: rest) =
      cs ++ Script.clauses rest) (v : Validator) :
    Says (line (start ++ x ++ " = " ++ v.source ++ ";")) cs := by
  have hname : Says (start ++ x ++ " = ") cs := by
    have hname : Yields [] (start ++ x ++ " = ") (ss ++ [Symbol.name x.toList, .mark '=']) [] :=
      hx.yields hstart (by decide) (by decide) rfl
    refine ⟨_, hname, fun rest => ?_⟩
    rw [List.append_assoc]
    exact hcs rest
  have hvalue : Says v.source [] := .quiet (Validator.quiet_source v)
  have hend : Says ";" [] := .quiet (.code (by decide))
  have h := (hname.append hvalue).append hend
  rw [List.append_nil, List.append_nil] at h
  exact says_line h

/-- The symbols of a statement that exports a name. -/
def exportSymbols (x : String) : List Symbol :=
  [.keyword .module, .mark '.', .keyword .exports, .mark '.', .name x.toList, .mark '=',
    .name x.toList, .mark ';']

/-- A statement that exports a name. -/
theorem yields_export {x : String} (hx : PlainName x) :
    Yields [] ("module.exports." ++ x ++ " = " ++ x ++ ";") (exportSymbols x) [] := by
  have hstart : Yields [] "module.exports."
      [.keyword .module, .mark '.', .keyword .exports, .mark '.'] [] := .code (by decide) rfl
  have hname : Yields [] ("module.exports." ++ x ++ " = ")
      [.keyword .module, .mark '.', .keyword .exports, .mark '.', .name x.toList, .mark '='] [] :=
    hx.yields hstart (by decide) (by decide) rfl
  exact hx.yields hname (by decide) (by decide) rfl

/-- The export of a name in a statement of its own. -/
theorem says_export {x : String} (hx : PlainName x) :
    Says (line ("module.exports." ++ x ++ " = " ++ x ++ ";")) [.exports x] := by
  refine ⟨_, yields_line (yields_export hx), fun rest => ?_⟩
  simp [exportSymbols, Script.clauses, Keyword.clause?]

/-- The symbols behind the keyword of a statement that gives a name to the type that goes with a
validator. -/
def typeSymbols (x y : String) : List Symbol :=
  [.name y.toList, .mark '=', .name ['z'], .mark '.', .name ['i', 'n', 'f', 'e', 'r'], .mark '<',
    .name ['t', 'y', 'p', 'e', 'o', 'f'], .name x.toList, .mark '>', .mark ';']

/-- A statement that gives a name to a type. -/
theorem yields_type {start x y : String} {ss : List Symbol} (hx : PlainName x) (hy : PlainName y)
    (hstart : Yields [] start ss []) :
    Yields [] (start ++ y ++ " = z.infer<typeof " ++ x ++ ">;") (ss ++ typeSymbols x y) [] := by
  have htype : Yields [] (start ++ y ++ " = z.infer<typeof ")
      (ss ++ [Symbol.name y.toList, .mark '=', .name ['z'], .mark '.',
        .name ['i', 'n', 'f', 'e', 'r'], .mark '<', .name ['t', 'y', 'p', 'e', 'o', 'f']]) [] :=
    hy.yields hstart (by decide) (by decide) rfl
  have hline : Yields [] (start ++ y ++ " = z.infer<typeof " ++ x ++ ">;")
      (ss ++ [Symbol.name y.toList, .mark '=', .name ['z'], .mark '.',
        .name ['i', 'n', 'f', 'e', 'r'], .mark '<', .name ['t', 'y', 'p', 'e', 'o', 'f']] ++
        [Symbol.name x.toList, .mark '>', .mark ';']) [] :=
    hx.yields htype (by decide) (by decide) rfl
  rw [List.append_assoc] at hline
  exact hline

/-- The declaration of the type that goes with a validator. -/
theorem says_type {start x y : String} {ss : List Symbol} {cs : List Clause} (hx : PlainName x)
    (hy : PlainName y) (hstart : Yields [] start ss [])
    (hcs : ∀ rest, Script.clauses (ss ++ Symbol.name y.toList :: rest) =
      cs ++ Script.clauses rest) :
    Says (line (start ++ y ++ " = z.infer<typeof " ++ x ++ ">;")) cs := by
  refine ⟨_, yields_line (yields_type hx hy hstart), fun rest => ?_⟩
  rw [List.append_assoc]
  exact hcs _

/-- The statements of a validator. -/
theorem says_fragment (d : Dialect) {f : Fragment} (h : MadeName f.binding) :
    Says (f.source d) (validatorClauses d f.binding) := by
  have hx := h.plainName
  have hy := h.typeNameOf.plainName
  -- the four kinds of lines, each read on its own
  have hesm : Says (line ("export const " ++ f.binding ++ " = " ++ f.validator.source ++ ";"))
      [.exports f.binding, .declares .const f.binding] := by
    have hstart : Yields [] "export const " [.keyword .exporting, .keyword .const] [] :=
      .code (by decide) rfl
    exact says_bound hx hstart (fun rest => by simp [Script.clauses, Keyword.clause?]) _
  have hcommonJs : Says (line ("const " ++ f.binding ++ " = " ++ f.validator.source ++ ";"))
      [.declares .const f.binding] := by
    have hstart : Yields [] "const " [.keyword .const] [] := .code (by decide) rfl
    exact says_bound hx hstart (fun rest => by simp [Script.clauses, Keyword.clause?]) _
  have hexportType : Says (line ("export type " ++ typeNameOf f.binding ++
      " = z.infer<typeof " ++ f.binding ++ ">;"))
      [.exports (typeNameOf f.binding), .declares .type (typeNameOf f.binding)] := by
    have hstart : Yields [] "export type " [.keyword .exporting, .keyword .type] [] :=
      .code (by decide) rfl
    exact says_type hx hy hstart fun rest => by simp [Script.clauses, Keyword.clause?]
  have htype : Says (line ("type " ++ typeNameOf f.binding ++ " = z.infer<typeof " ++
      f.binding ++ ">;")) [.declares .type (typeNameOf f.binding)] := by
    have hstart : Yields [] "type " [.keyword .type] [] := .code (by decide) rfl
    exact says_type hx hy hstart fun rest => by simp [Script.clauses, Keyword.clause?]
  obtain ⟨-, -, style, typed, -, -⟩ := d
  cases style with
  | esm =>
    cases typed with
    | false => exact hesm
    | true => exact hesm.append hexportType
  | commonJs =>
    have hbound := hcommonJs.append (says_export hx)
    cases typed with
    | false => exact hbound
    | true => exact hbound.append htype

/-! ## The prompt object -/

/-- What the statement that starts a prompt object says. -/
def openingClauses (d : Dialect) (x : String) : List Clause :=
  match d.style with
  | .esm => [.exports x, .declares .const x]
  | .commonJs => [.declares .const x]

/-- What the statement behind a prompt object says. -/
def closingClauses (d : Dialect) (x : String) : List Clause :=
  match d.style with
  | .esm => []
  | .commonJs => [.exports x]

/-- The type of a prompt object is a name. -/
theorem plainName_promptType : PlainName promptType :=
  (MadeName.of_all (by decide) (by decide)).plainName

/-- The first line of a prompt object, with or without its type. -/
theorem says_header {start x : String} {ss : List Symbol} {cs : List Clause} (hx : PlainName x)
    (hstart : Yields [] start ss [])
    (hcs : ∀ rest, Script.clauses (ss ++ Symbol.name x.toList :: rest) =
      cs ++ Script.clauses rest) (typed : Bool) :
    Says (line (start ++ x ++ (if typed then ": " ++ promptType else "") ++ " = \x7b")) cs := by
  cases typed with
  | false =>
    have hline : Yields [] (start ++ x ++ " = \x7b")
        (ss ++ [Symbol.name x.toList, .mark '=', .mark '\x7b']) [] :=
      hx.yields hstart (by decide) (by decide) rfl
    rw [if_neg Bool.false_ne_true, String.append_empty]
    refine ⟨_, yields_line hline, fun rest => ?_⟩
    rw [List.append_assoc]
    exact hcs _
  | true =>
    have hcolon : Yields [] (start ++ x ++ ": ") (ss ++ [Symbol.name x.toList, .mark ':']) [] :=
      hx.yields hstart (by decide) (by decide) rfl
    have hline : Yields [] (start ++ x ++ ": " ++ promptType ++ " = \x7b")
        (ss ++ [Symbol.name x.toList, .mark ':'] ++
          [Symbol.name promptType.toList, .mark '=', .mark '\x7b']) [] :=
      plainName_promptType.yields hcolon (by decide) (by decide) rfl
    rw [if_pos rfl, ← String.append_assoc]
    refine ⟨_, yields_line hline, fun rest => ?_⟩
    rw [List.append_assoc, List.append_assoc]
    exact hcs _

namespace ModuleContent

variable {m : ModuleContent}

/-- The start of the prompt object. -/
theorem says_opening (d : Dialect) (h : PlainName m.binding) :
    Says (m.opening d) (openingClauses d m.binding) := by
  rw [opening, openingClauses]
  cases d.style with
  | esm =>
    have hstart : Yields [] "export const " [.keyword .exporting, .keyword .const] [] :=
      .code (by decide) rfl
    exact says_header h hstart (fun rest => by simp [Script.clauses, Keyword.clause?]) d.typed
  | commonJs =>
    have hstart : Yields [] "const " [.keyword .const] [] := .code (by decide) rfl
    exact says_header h hstart (fun rest => by simp [Script.clauses, Keyword.clause?]) d.typed

/-- The export behind the prompt object. -/
theorem says_closing (d : Dialect) (h : PlainName m.binding) :
    Says (m.closing d) (closingClauses d m.binding) := by
  rw [closing, closingClauses]
  cases d.style with
  | esm => exact .quiet .empty
  | commonJs => exact says_export h

/-- A tool in a list. -/
theorem says_entry {t : ToolEntry} (h : PlainName t.parameters) :
    Says t.source [.uses .parameters t.parameters] := by
  have hstart : Says (line "\x7b") [] := says_line (.quiet (.code (by decide)))
  have hname : Says (line ("name: " ++ Script.quote t.name ++ ",")) [] :=
    .quiet (quiet_member (.code (by decide)) (Quiet.quote (p := false) t.name).mayEnd)
  have hdescription : Says (line ("description: " ++ Script.quote t.description ++ ",")) [] :=
    .quiet (quiet_member (.code (by decide)) (Quiet.quote (p := false) t.description).mayEnd)
  have hparameters : Says (line ("parameters: " ++ t.parameters ++ ","))
      [.uses .parameters t.parameters] :=
    says_member h (.code (by decide) rfl) fun _ => by simp [Keyword.clause?]
  have hend : Says (line "\x7d,") [] := says_line (.quiet (.code (by decide)))
  exact (((hstart.append hname).append hdescription).append hparameters).append hend

/-- Messages under a key hold no keyword. -/
theorem quiet_messages {key : String} (hkey : Quiet false true key) (ms : List Message) :
    Quiet false false (messagesSource key ms) := by
  rw [messagesSource]
  split
  · exact .empty
  · have hcolon : Quiet true false ": " := .code (by decide)
    exact quiet_member (hkey.append hcolon) (Json.quiet_pretty _)

/-- A model is a literal or a name that is no keyword. -/
theorem quiet_modelText (m : ModuleContent) : Quiet false true m.modelText := by
  rw [modelText]
  cases m.prompt.model with
  | none => exact .code (by decide)
  | some model => exact (Quiet.quote model).mayEnd

/-- A temperature is a number. -/
theorem quiet_temperature (x : Binary64) : Quiet false true (x.positional "") := by
  have hfraction : Script.NumeralText "" := by decide
  obtain h | h := Script.positional_cases hfraction x
  · simp only [List.mem_cons, List.not_mem_nil, or_false] at h
    obtain h | h | h := h
    · rw [h]
      exact .code (by decide)
    · rw [h]
      exact .code (by decide)
    · rw [h]
      exact .code (by decide)
  · exact .numeral h

/-- The tools, if there are any. -/
theorem says_tools (h : ∀ t ∈ m.tools, PlainName t.parameters) :
    Says (if m.tools.isEmpty then ""
      else line "tools: [" ++ (m.tools.map ToolEntry.source).foldr (· ++ ·) "" ++ line "],")
      (m.tools.map fun t => .uses .parameters t.parameters) := by
  have hentries : Says ((m.tools.map ToolEntry.source).foldr (· ++ ·) "")
      (m.tools.flatMap fun t => [.uses .parameters t.parameters]) :=
    .flatMap fun t ht => says_entry (h t ht)
  rw [← List.map_eq_flatMap] at hentries
  split
  next hm =>
    rw [List.isEmpty_iff.mp hm]
    exact .quiet .empty
  next =>
    have hstart : Says (line "tools: [") [] := says_line (.quiet (.code (by decide)))
    have hend : Says (line "],") [] := says_line (.quiet (.code (by decide)))
    have htools := (hstart.append hentries).append hend
    rwa [List.nil_append, List.append_nil] at htools

/-- The validator of the answer, if there is one. -/
theorem says_schemaText (h : ∀ x ∈ m.schema, PlainName x) :
    Says m.schemaText (m.schema.toList.map (.uses .schema)) := by
  rw [schemaText]
  cases hm : m.schema with
  | none => exact .quiet .empty
  | some x => exact says_member (h x hm) (.code (by decide) rfl) fun _ => by simp [Keyword.clause?]

/-- The prompt object uses the validators of its tools and of its answer. -/
theorem says_literal (htools : ∀ t ∈ m.tools, PlainName t.parameters)
    (hschema : ∀ x ∈ m.schema, PlainName x) :
    Says m.literal ((m.tools.map fun t => .uses .parameters t.parameters) ++
      m.schema.toList.map (.uses .schema)) := by
  have hname : Quiet false false (line ("name: " ++ Script.quote m.prompt.name ++ ",")) :=
    quiet_member (.code (by decide)) (Quiet.quote (p := false) _).mayEnd
  have hversion : Quiet false false (line ("version: " ++ toString m.prompt.version ++ ",")) :=
    quiet_member (.code (by decide)) (.numeral (Script.numeralText_nat _))
  have hmodel : Quiet false false (line ("model: " ++ m.modelText ++ ",")) :=
    quiet_member (.code (by decide)) (quiet_modelText m)
  have htemperature : Quiet false false
      (line ("temperature: " ++ m.prompt.temperature.positional "" ++ ",")) :=
    quiet_member (.code (by decide)) (quiet_temperature _)
  have hsystem : Quiet false false
      (line ("systemPrompt: " ++ Script.quote m.prompt.system ++ ",")) :=
    quiet_member (.code (by decide)) (Quiet.quote (p := false) _).mayEnd
  have hfewShot : Quiet false false (messagesSource "fewShotMessages" m.prompt.fewShot) :=
    quiet_messages (.code (by decide)) _
  have hfinal : Quiet false false (messagesSource "finalMessages" m.prompt.final) :=
    quiet_messages (.code (by decide)) _
  have hend : Says (line "\x7d;") [] := says_line (.quiet (.code (by decide)))
  -- the members in front of the tools say nothing
  have hmembers : Says _ [] := .quiet ((((((hname.append hversion).append hmodel).append
    htemperature).append hsystem).append hfewShot).append hfinal)
  have hall := ((hmembers.append (says_tools htools)).append (says_schemaText hschema)).append hend
  rwa [List.nil_append, List.append_nil] at hall

end ModuleContent

/-! ## Modules -/

/-- What the import of the library says, if there are validators with some names. -/
def libraryClauses (d : Dialect) (names : List String) : List Clause :=
  if names.isEmpty then [] else [.imports "z", .source (quotedBody d.validatorPath)]

/-- What the import of the type of prompts says, in typed dialects. -/
def typeClauses (d : Dialect) : List Clause :=
  if d.typed then [.imports promptType, .source (quotedBody (d.importPath typesStem))] else []

/-- The names that a prompt object uses. -/
def useClauses (p : Prompt) : List Clause :=
  (p.tools.map fun t => .uses .parameters (ToolEntry.ofTool t).parameters) ++
    (p.schema.map fun _ => ModuleContent.schemaBindingOf p).toList.map (.uses .schema)

/-- What the module of a prompt says. -/
def moduleClauses (d : Dialect) (p : Prompt) : List Clause :=
  libraryClauses d (ModuleContent.validatorNames p) ++ typeClauses d ++
    (ModuleContent.validatorNames p).flatMap (validatorClauses d) ++
    openingClauses d (ModuleContent.bindingOf p) ++ useClauses p ++
    closingClauses d (ModuleContent.bindingOf p)

/-- A statement that ends in the literal of a path. -/
theorem yields_path {start path : String} {ss : List Symbol} (hstart : Yields [] start ss []) :
    Yields [] (start ++ Script.quote path ++ ";")
      (ss ++ [Symbol.text (quotedBody path)] ++ [Symbol.mark ';']) [] := by
  have hend : Yields [] ";" [.mark ';'] [] := .code (by decide) rfl
  exact (hstart.append (.quote path)).append hend

/-- A statement that names the type of prompts and where it comes from. -/
theorem yields_promptType {start path : String} {ss : List Symbol}
    (hstart : Yields [] start ss []) :
    Yields [] (start ++ promptType ++ " \x7d from " ++ Script.quote path ++ ";")
      (ss ++ [Symbol.name promptType.toList, .mark '\x7d', .keyword .source] ++
        [Symbol.text (quotedBody path)] ++ [Symbol.mark ';']) [] :=
  yields_path (plainName_promptType.yields hstart (by decide) (by decide) rfl)

/-- An import of the library. -/
theorem yields_libraryImport (path : String) :
    Yields [] ("import \x7b z \x7d from " ++ Script.quote path ++ ";")
      ([.keyword .importing, .mark '\x7b', .name ['z'], .mark '\x7d', .keyword .source] ++
        [Symbol.text (quotedBody path)] ++ [Symbol.mark ';']) [] := by
  have hstart : Yields [] "import \x7b z \x7d from "
      [.keyword .importing, .mark '\x7b', .name ['z'], .mark '\x7d', .keyword .source] [] :=
    .code (by decide) rfl
  exact yields_path hstart

/-- A constant for the library, which is required. -/
theorem yields_libraryRequire (path : String) :
    Yields [] ("const \x7b z \x7d = require(" ++ Script.quote path ++ ");")
      ([.keyword .const, .mark '\x7b', .name ['z'], .mark '\x7d', .mark '=', .keyword .require,
        .mark '('] ++ [Symbol.text (quotedBody path)] ++ [Symbol.mark ')', .mark ';']) [] := by
  have hstart : Yields [] "const \x7b z \x7d = require("
      [.keyword .const, .mark '\x7b', .name ['z'], .mark '\x7d', .mark '=', .keyword .require,
        .mark '('] [] := .code (by decide) rfl
  have hend : Yields [] ");" [.mark ')', .mark ';'] [] := .code (by decide) rfl
  exact (hstart.append (.quote path)).append hend

/-- An import of the type of prompts. -/
theorem yields_typeImport (path : String) :
    Yields [] ("import type \x7b " ++ promptType ++ " \x7d from " ++ Script.quote path ++ ";")
      ([.keyword .importing, .keyword .type, .mark '\x7b'] ++
        [Symbol.name promptType.toList, .mark '\x7d', .keyword .source] ++
        [Symbol.text (quotedBody path)] ++ [Symbol.mark ';']) [] := by
  have hstart : Yields [] "import type \x7b "
      [.keyword .importing, .keyword .type, .mark '\x7b'] [] := .code (by decide) rfl
  exact yields_promptType hstart

namespace ModuleContent

variable {m : ModuleContent}

/-- The imports of a module. -/
theorem says_imports (d : Dialect) (m : ModuleContent) :
    Says (m.imports d) (libraryClauses d (m.fragments.map Fragment.binding) ++ typeClauses d) := by
  have hesm : Says (line ("import \x7b z \x7d from " ++ Script.quote d.validatorPath ++ ";"))
      [.imports "z", .source (quotedBody d.validatorPath)] :=
    ⟨_, yields_line (yields_libraryImport _), fun _ => rfl⟩
  have hcommonJs : Says (line ("const \x7b z \x7d = require(" ++ Script.quote d.validatorPath ++
      ");")) [.imports "z", .source (quotedBody d.validatorPath)] :=
    ⟨_, yields_line (yields_libraryRequire _), fun _ => rfl⟩
  have htype : Says (line ("import type \x7b " ++ promptType ++ " \x7d from " ++
      Script.quote (d.importPath typesStem) ++ ";"))
      [.imports promptType, .source (quotedBody (d.importPath typesStem))] :=
    ⟨_, yields_line (yields_typeImport _), fun _ => rfl⟩
  rw [libraryClauses, typeClauses, List.isEmpty_map]
  refine .append ?_ ?_
  · split
    · exact .quiet .empty
    · cases d.style with
      | esm => exact hesm
      | commonJs => exact hcommonJs
  · split
    · exact htype
    · exact .quiet .empty

/-- What the module of a prompt says. -/
theorem says_source (d : Dialect) {p : Prompt} (h : ofPrompt p = .ok m) :
    Says (m.source d) (moduleClauses d p) := by
  obtain ⟨hbinding, -, -, htools, hschema, hfragments⟩ := names_of_ofPrompt h
  have hmade : ∀ f ∈ m.fragments, MadeName f.binding := fun f hf =>
    madeName_of_mem_validatorNames (hfragments ▸ List.mem_map_of_mem hf)
  have hvalidators : Says (m.validators d) ((validatorNames p).flatMap (validatorClauses d)) := by
    rw [← hfragments, List.flatMap_map]
    refine .flatMap fun f hf => ?_
    have hblank : Says "\n" [] := .quiet (.code (by decide))
    exact hblank.append (says_fragment d (hmade f hf))
  have hname : PlainName m.binding := hbinding ▸ (madeName_bindingOf p).plainName
  have hliteral : Says m.literal (useClauses p) := by
    have hparameters : ∀ t ∈ m.tools, PlainName t.parameters := by
      intro t ht
      rw [htools] at ht
      obtain ⟨tool, -, rfl⟩ := List.mem_map.mp ht
      exact (madeName_parameters tool).plainName
    have hanswer : ∀ x ∈ m.schema, PlainName x := by
      intro x hx
      rw [hschema] at hx
      obtain ⟨-, -, rfl⟩ := Option.map_eq_some_iff.mp hx
      exact (madeName_schemaBindingOf p).plainName
    have hliteral := says_literal hparameters hanswer
    rw [htools, hschema, List.map_map] at hliteral
    exact hliteral
  have hblank : Says "\n" [] := .quiet (.code (by decide))
  -- the parts in the order in which the source has them
  have hsource := (((((says_imports d m).append hvalidators).append hblank).append
    (says_opening d hname)).append hliteral).append (says_closing d hname)
  rw [hfragments, hbinding, List.append_nil] at hsource
  exact hsource

end ModuleContent

/-! ## The index -/

/-- The symbols of the line of the index for a prompt, given its name and the body of the literal
that says where its module is. -/
def reexport (style : ModuleStyle) (x : String) (body : List Char) : List Symbol :=
  match style with
  | .esm => [.keyword .exporting, .mark '\x7b', .name x.toList, .mark '\x7d', .keyword .source,
      .text body, .mark ';']
  | .commonJs => [.keyword .module, .mark '.', .keyword .exports, .mark '.', .name x.toList,
      .mark '=', .keyword .require, .mark '(', .text body, .mark ')', .mark '.', .name x.toList,
      .mark ';']

/-- The symbols of the line of the index for the type of prompts. -/
def reexportType (body : List Char) : List Symbol :=
  [.keyword .exporting, .keyword .type, .mark '\x7b', .name promptType.toList, .mark '\x7d',
    .keyword .source, .text body, .mark ';']

/-- The statement of the index that re-exports a prompt. -/
def indexStatement (d : Dialect) (m : ModuleContent) : String :=
  let specifier := Script.quote (d.importPath m.stem)
  match d.style with
  | .esm => "export \x7b " ++ m.binding ++ " \x7d from " ++ specifier ++ ";"
  | .commonJs =>
    "module.exports." ++ m.binding ++ " = require(" ++ specifier ++ ")." ++ m.binding ++ ";"

/-- It stands on a line. -/
theorem indexLine_eq (d : Dialect) (m : ModuleContent) :
    indexLine d m = line (indexStatement d m) := by
  rw [indexLine, indexStatement]
  cases d.style <;> rfl

/-- The statement of the index that re-exports the type of prompts. -/
def typeStatement (d : Dialect) : String :=
  "export type \x7b " ++ promptType ++ " \x7d from " ++ Script.quote (d.importPath typesStem) ++
    ";"

/-- The symbols of the statement for a prompt. -/
theorem yields_indexStatement (d : Dialect) {m : ModuleContent} (h : PlainName m.binding) :
    Yields [] (indexStatement d m)
      (reexport d.style m.binding (quotedBody (d.importPath m.stem))) [] := by
  rw [indexStatement]
  cases d.style with
  | esm =>
    have hstart : Yields [] "export \x7b " [.keyword .exporting, .mark '\x7b'] [] :=
      .code (by decide) rfl
    have hname : Yields [] ("export \x7b " ++ m.binding ++ " \x7d from ")
        [.keyword .exporting, .mark '\x7b', .name m.binding.toList, .mark '\x7d',
          .keyword .source] [] := h.yields hstart (by decide) (by decide) rfl
    exact yields_path hname
  | commonJs =>
    have hstart : Yields [] "module.exports."
        [.keyword .module, .mark '.', .keyword .exports, .mark '.'] [] := .code (by decide) rfl
    have hname : Yields [] ("module.exports." ++ m.binding ++ " = require(")
        [.keyword .module, .mark '.', .keyword .exports, .mark '.', .name m.binding.toList,
          .mark '=', .keyword .require, .mark '('] [] := h.yields hstart (by decide) (by decide) rfl
    have hclose : Yields [] ")." [.mark ')', .mark '.'] [] := .code (by decide) rfl
    have hpath := (hname.append (.quote (d.importPath m.stem))).append hclose
    exact h.yields hpath (by decide) (by decide) rfl

/-- The symbols of the statement for the type of prompts. -/
theorem yields_typeStatement (d : Dialect) :
    Yields [] (typeStatement d) (reexportType (quotedBody (d.importPath typesStem))) [] := by
  have hstart : Yields [] "export type \x7b " [.keyword .exporting, .keyword .type, .mark '\x7b']
      [] := .code (by decide) rfl
  exact yields_promptType hstart

/-- What the line of the index for the type of prompts says, in typed dialects. -/
def indexTypeClauses (d : Dialect) : List Clause :=
  if d.typed then [.exports promptType, .source (quotedBody (d.importPath typesStem))] else []

/-- What the index says. -/
theorem says_index (d : Dialect) {ms : List ModuleContent} (h : ∀ m ∈ ms, PlainName m.binding) :
    Says (indexFile d ms).contents (indexTypeClauses d ++
      ms.flatMap fun m => [.exports m.binding, .source (quotedBody (d.importPath m.stem))]) := by
  refine .append ?_ (.flatMap fun m hm => ?_)
  · rw [indexTypes, indexTypeClauses]
    split
    · exact ⟨_, yields_line (yields_typeStatement d), fun _ => by
        simp [Script.clauses, Keyword.clause?, reexportType]⟩
    · exact .quiet .empty
  · refine ⟨_, indexLine_eq d m ▸ yields_line (yields_indexStatement d (h m hm)), fun rest => ?_⟩
    cases d.style with
    | esm => simp [Script.clauses, Keyword.clause?, reexport]
    | commonJs => simp [Script.clauses, Keyword.clause?, reexport]

end Promptwright
