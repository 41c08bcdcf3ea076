import Promptwright.Package.Module
import Promptwright.Proofs.Except
import Promptwright.Proofs.Validator.Pieces

/-!
# Modules as pieces of scripts

The module of a prompt closes everything that it starts, whatever the texts of the prompt are: the
free ones stand in literals and comments, and the names that are made up are words.

## Key results

- `named_of_ofPrompt`: the names in a module are words
- `piece_source`: the text of a module
- `piece_index`: the text of the index
-/

namespace Promptwright

open Script (Bracket Lexeme Piece WordText)

/-! ## Names -/

/-- A module whose names are all words. -/
structure ModuleContent.Named (m : ModuleContent) : Prop where
  binding : WordText m.binding
  parameters : ∀ t ∈ m.tools, WordText t.parameters
  schema : ∀ b ∈ m.schema, WordText b
  fragments : ∀ f ∈ m.fragments, WordText f.binding

/-- The name of a prompt object is a word. -/
theorem wordText_bindingOf (p : Prompt) : WordText (ModuleContent.bindingOf p) :=
  ((Script.wordText_camel p.name).append (by decide)).append (Script.wordText_nat p.version)

/-- The name of the validator of an answer is a word. -/
theorem wordText_schemaBindingOf (p : Prompt) : WordText (ModuleContent.schemaBindingOf p) :=
  ((Script.wordText_camel p.name).append (by decide)).append (Script.wordText_nat p.version)

/-- The name of the validator of the parameters of a tool is a word. -/
theorem wordText_parameters (t : Tool) : WordText (ToolEntry.ofTool t).parameters :=
  (Script.wordText_camel t.name).append (by decide)

/-- A validator has the name that it is given. -/
theorem binding_of_ofSchema {binding : String} {s : Schema} {f : Fragment}
    (h : Fragment.ofSchema binding s = .ok f) : f.binding = binding := by
  obtain ⟨v, -, hf⟩ := bind_eq_ok h
  cases hf
  rfl

/-- The names in the module of a prompt are words. -/
theorem named_of_ofPrompt {p : Prompt} {m : ModuleContent} (h : ModuleContent.ofPrompt p = .ok m) :
    m.Named := by
  obtain ⟨ofTools, htools, h⟩ := bind_eq_ok h
  obtain ⟨ofAnswer, hanswer, h⟩ := bind_eq_ok h
  obtain rfl := Except.ok.inj h
  refine ⟨wordText_bindingOf p, ?_, ?_, ?_⟩
  · intro t ht
    obtain ⟨tool, -, rfl⟩ := List.mem_map.mp ht
    exact wordText_parameters tool
  · intro b hb
    obtain ⟨-, -, rfl⟩ := Option.map_eq_some_iff.mp hb
    exact wordText_schemaBindingOf p
  · intro f hf
    -- the validators of the tools, and then that of the answer if there is a schema
    obtain hf | hf := List.mem_append.mp hf
    · obtain ⟨tool, -, htool⟩ := exists_of_mem_right (mapM_eq_ok htools) hf
      rw [binding_of_ofSchema htool]
      exact wordText_parameters tool
    · rw [ModuleContent.answerFragments] at hanswer
      split at hanswer
      · cases hanswer
        cases hf
      · obtain ⟨g, hg, hanswer⟩ := bind_eq_ok hanswer
        cases hanswer
        rw [List.mem_singleton.mp hf, binding_of_ofSchema hg]
        exact wordText_schemaBindingOf p

/-! ## Lines -/

variable {p q : List Bracket} {t : String}

/-- A piece on a line. -/
theorem piece_line (h : Piece Lexeme.isPlain p q t) : Piece Lexeme.isPlain p q (line t) :=
  h.append ((Piece.code (by decide)).inside q)

/-- A part of a statement on a line. -/
theorem piece_innerLine (h : Piece Lexeme.isInner p q t) : Piece Lexeme.isInner p q (line t) :=
  h.append ((Piece.code (by decide)).inside q)

/-- A member of an object: a key, a value, and a comma. -/
theorem piece_member {key : String} (hkey : Piece Lexeme.isInner p p key)
    (h : Piece Lexeme.isInner p p t) : Piece Lexeme.isInner p p (line (key ++ t ++ ",")) :=
  piece_innerLine ((hkey.append h).append ((Piece.code (by decide)).inside p))

/-! ## Validators -/

/-- The statements that bind a validator. -/
theorem piece_fragment (d : Dialect) {f : Fragment} (h : WordText f.binding) :
    Piece Lexeme.isPlain [] [] (f.source d) := by
  have hname : Piece Lexeme.isPlain [] [] f.binding := (Piece.word h).plain
  have hbound : ∀ start, Piece Lexeme.isPlain [] [] start →
      Piece Lexeme.isPlain [] [] (line (start ++ f.binding ++ " = " ++ f.validator.source ++ ";")) :=
    fun start hstart => piece_line ((((hstart.beside hname).beside (.code (by decide))).beside
      (Validator.piece_source f.validator).plain).beside (.code (by decide)))
  have hexport : Piece Lexeme.isPlain [] []
      (line ("module.exports." ++ f.binding ++ " = " ++ f.binding ++ ";")) :=
    piece_line (((((Piece.code (by decide)).beside hname).beside (.code (by decide))).beside
      hname).beside (.code (by decide)))
  have htype : ∀ mark, Piece Lexeme.isPlain [] [] mark → Piece Lexeme.isPlain [] []
      (line (mark ++ "type " ++ f.typeName ++ " = z.infer<typeof " ++ f.binding ++ ">;")) :=
    fun mark hmark => piece_line (((((hmark.beside (.code (by decide))).beside
      (Piece.word (Script.wordText_upperFirst h)).plain).beside (.code (by decide))).beside
      hname).beside (.code (by decide)))
  -- the style and the types of the dialect decide which of the lines there are
  obtain ⟨-, -, style, typed, -, -⟩ := d
  cases style with
  | esm =>
    have hbound := hbound "export const " (.code (by decide))
    cases typed with
    | false => exact hbound
    | true => exact hbound.beside (htype "export " (.code (by decide)))
  | commonJs =>
    have hbound := (hbound "const " (.code (by decide))).beside hexport
    cases typed with
    | false => exact hbound
    | true => exact hbound.beside (htype "" (.code (by decide)))

/-! ## The prompt object -/

/-- A tool in a list. -/
theorem piece_entry {t : ToolEntry} (h : WordText t.parameters) :
    Piece Lexeme.isInner [] [] t.source := by
  have hname : Piece Lexeme.isInner [.curly] [.curly]
      (line ("name: " ++ Script.quote t.name ++ ",")) :=
    piece_member (.code (by decide)) (Piece.quote t.name)
  have hdescription : Piece Lexeme.isInner [.curly] [.curly]
      (line ("description: " ++ Script.quote t.description ++ ",")) :=
    piece_member (.code (by decide)) (Piece.quote t.description)
  have hparameters : Piece Lexeme.isInner [.curly] [.curly]
      (line ("parameters: " ++ t.parameters ++ ",")) :=
    piece_member (.code (by decide)) (Piece.word h)
  exact ((((piece_innerLine (.code (by decide))).append hname).append hdescription).append
    hparameters).append (piece_innerLine (.code (by decide)))

/-- Messages under a key, if there are any. -/
theorem piece_messages {key : String} (hkey : Piece Lexeme.isInner [] [] key)
    (ms : List Message) : Piece Lexeme.isInner [] [] (messagesSource key ms) := by
  rw [messagesSource]
  split
  · exact .empty
  · exact piece_member (hkey.beside (.code (by decide))) (Json.piece_pretty _)

/-- A statement that imports or exports the type of prompts. -/
theorem piece_typeImport {start : String} (hstart : Piece Lexeme.isPlain [] [.curly] start)
    (path : String) : Piece Lexeme.isPlain [] []
      (line (start ++ promptType ++ " \x7d from " ++ Script.quote path ++ ";")) :=
  piece_line (((Piece.wrap hstart (.code (by decide)) (.code (by decide))).beside
    (Piece.quote path).plain).beside (.code (by decide)))

/-! ## Modules -/

namespace ModuleContent

variable {m : ModuleContent}

/-- The imports. -/
theorem piece_imports (d : Dialect) (m : ModuleContent) :
    Piece Lexeme.isPlain [] [] (m.imports d) := by
  refine .beside ?_ ?_
  · split
    · exact .empty
    · split
      · exact piece_line (((Piece.code (by decide)).beside (Piece.quote _).plain).beside
          (.code (by decide)))
      · exact piece_line (.wrap (p := [.round]) (.code (by decide)) (Piece.quote _).plain
          (.code (by decide)))
  · split
    · exact piece_typeImport (.code (by decide)) _
    · exact .empty

/-- The validators. -/
theorem piece_validators (d : Dialect) (h : m.Named) :
    Piece Lexeme.isPlain [] [] (m.validators d) := by
  refine .foldr fun t ht => ?_
  obtain ⟨f, hf, rfl⟩ := List.mem_map.mp ht
  exact .beside (.code (by decide)) (piece_fragment d (h.fragments f hf))

/-- The start of the prompt object. -/
theorem piece_opening (d : Dialect) (h : m.Named) :
    Piece Lexeme.isPlain [] [.curly] (m.opening d) := by
  have htyped : ∀ typed : Bool,
      Piece Lexeme.isPlain [] [] (if typed then ": " ++ promptType else "") := by
    intro typed
    cases typed with
    | false => exact .empty
    | true => exact .beside (.code (by decide)) (.code (by decide))
  have hline : ∀ start, Piece Lexeme.isPlain [] [] start → Piece Lexeme.isPlain [] [.curly]
      (line (start ++ m.binding ++ (if d.typed then ": " ++ promptType else "") ++ " = \x7b")) :=
    fun start hstart => piece_line (((hstart.beside (Piece.word h.binding).plain).beside
      (htyped d.typed)).append (.code (by decide)))
  rw [opening]
  cases d.style with
  | esm => exact hline "export const " (.code (by decide))
  | commonJs => exact hline "const " (.code (by decide))

/-- The tools, if there are any. -/
theorem piece_tools (h : m.Named) :
    Piece Lexeme.isInner [] [] (if m.tools.isEmpty then ""
      else line "tools: [" ++ (m.tools.map ToolEntry.source).foldr (· ++ ·) "" ++ line "],") := by
  split
  · exact .empty
  · refine .wrap (p := [.square]) (piece_innerLine (.code (by decide))) (.foldr fun t ht => ?_)
      (piece_innerLine (.code (by decide)))
    obtain ⟨entry, hentry, rfl⟩ := List.mem_map.mp ht
    exact piece_entry (h.parameters entry hentry)

/-- The model in a prompt object. -/
def modelText (m : ModuleContent) : String :=
  match m.prompt.model with
  | some model => Script.quote model
  | none => "undefined"

/-- A model is a literal or a word. -/
theorem piece_modelText (m : ModuleContent) : Piece Lexeme.isInner [] [] m.modelText := by
  rw [modelText]
  cases m.prompt.model with
  | none => exact .code (by decide)
  | some model => exact (Piece.quote model)

/-- The validator of the answer in a prompt object, if there is one. -/
def schemaText (m : ModuleContent) : String :=
  match m.schema with
  | some binding => line ("schema: " ++ binding ++ ",")
  | none => ""

/-- The validator of the answer is a word, if it is there. -/
theorem piece_schemaText (h : m.Named) : Piece Lexeme.isInner [] [] m.schemaText := by
  rw [schemaText]
  cases hb : m.schema with
  | none => exact .empty
  | some binding => exact piece_member (.code (by decide)) (Piece.word (h.schema binding hb))

/-- The members of the prompt object. -/
def members (m : ModuleContent) : String :=
  line ("name: " ++ Script.quote m.prompt.name ++ ",") ++
  line ("version: " ++ toString m.prompt.version ++ ",") ++
  line ("model: " ++ m.modelText ++ ",") ++
  line ("temperature: " ++ m.prompt.temperature.positional "" ++ ",") ++
  line ("systemPrompt: " ++ Script.quote m.prompt.system ++ ",") ++
  messagesSource "fewShotMessages" m.prompt.fewShot ++
  messagesSource "finalMessages" m.prompt.final ++
  (if m.tools.isEmpty then ""
    else line "tools: [" ++ (m.tools.map ToolEntry.source).foldr (· ++ ·) "" ++ line "],") ++
  m.schemaText

/-- Behind the members, the prompt object ends. -/
theorem literal_eq_members (m : ModuleContent) : m.literal = m.members ++ line "\x7d;" := rfl

/-- The members are part of a statement. -/
theorem piece_members (h : m.Named) : Piece Lexeme.isInner [] [] m.members := by
  have hname : Piece Lexeme.isInner [] [] (line ("name: " ++ Script.quote m.prompt.name ++ ",")) :=
    piece_member (.code (by decide)) (Piece.quote _)
  have hversion : Piece Lexeme.isInner [] []
      (line ("version: " ++ toString m.prompt.version ++ ",")) :=
    piece_member (.code (by decide)) (Piece.word (Script.wordText_nat _))
  have hmodel : Piece Lexeme.isInner [] [] (line ("model: " ++ m.modelText ++ ",")) :=
    piece_member (.code (by decide)) (piece_modelText m)
  have htemperature : Piece Lexeme.isInner [] []
      (line ("temperature: " ++ m.prompt.temperature.positional "" ++ ",")) :=
    piece_member (.code (by decide))
      (Piece.word (Script.wordText_positional (by decide) _))
  have hsystem : Piece Lexeme.isInner [] []
      (line ("systemPrompt: " ++ Script.quote m.prompt.system ++ ",")) :=
    piece_member (.code (by decide)) (Piece.quote _)
  have hfewShot : Piece Lexeme.isInner [] [] (messagesSource "fewShotMessages" m.prompt.fewShot) :=
    piece_messages (.code (by decide)) _
  have hfinal : Piece Lexeme.isInner [] [] (messagesSource "finalMessages" m.prompt.final) :=
    piece_messages (.code (by decide)) _
  exact (((((((hname.beside hversion).beside hmodel).beside htemperature).beside
    hsystem).beside hfewShot).beside hfinal).beside (piece_tools h)).beside (piece_schemaText h)

/-- The members of the prompt object and its end. -/
theorem piece_literal (h : m.Named) : Piece Lexeme.isPlain [.curly] [] m.literal := by
  rw [literal_eq_members]
  exact ((piece_members h).plain.inside [.curly]).append (piece_line (.code (by decide)))

/-- The export of the prompt object. -/
theorem piece_closing (d : Dialect) (h : m.Named) :
    Piece Lexeme.isPlain [] [] (m.closing d) := by
  have hname : Piece Lexeme.isPlain [] [] m.binding := (Piece.word h.binding).plain
  rw [closing]
  cases d.style with
  | esm => exact .empty
  | commonJs =>
    exact piece_line (((((Piece.code (by decide)).beside hname).beside (.code (by decide))).beside
      hname).beside (.code (by decide)))

/-- The text of a module. -/
theorem piece_source (d : Dialect) (h : m.Named) : Piece Lexeme.isPlain [] [] (m.source d) := by
  have hblank : Piece Lexeme.isPlain [] [] "\n" := .code (by decide)
  have hstart := ((piece_imports d m).beside (piece_validators d h)).beside hblank
  exact ((hstart.append (piece_opening d h)).append (piece_literal h)).append (piece_closing d h)

end ModuleContent

/-! ## The index -/

/-- The line of the index for a prompt. -/
theorem piece_indexLine (d : Dialect) {m : ModuleContent} (h : m.Named) :
    Piece Lexeme.isPlain [] [] (indexLine d m) := by
  have hname : Piece Lexeme.isPlain [] [] m.binding := (Piece.word h.binding).plain
  have hpath : Piece Lexeme.isPlain [] [] (Script.quote (d.importPath m.stem)) :=
    (Piece.quote _).plain
  rw [indexLine]
  cases d.style with
  | esm =>
    exact piece_line (((Piece.wrap (p := [.curly]) (.code (by decide)) hname
      (.code (by decide))).beside hpath).beside (.code (by decide)))
  | commonJs =>
    have hstart : Piece Lexeme.isPlain [] [] "module.exports." := .code (by decide)
    exact piece_line ((((((hstart.beside hname).append (.code (by decide))).append
      (hpath.inside [.round])).append (.code (by decide))).beside hname).beside
      (.code (by decide)))

/-- The text of the index. -/
theorem piece_index (d : Dialect) {ms : List ModuleContent} (h : ∀ m ∈ ms, m.Named) :
    Piece Lexeme.isPlain [] [] (indexFile d ms).contents := by
  refine .beside ?_ (.foldr fun t ht => ?_)
  · rw [indexTypes]
    split
    · exact piece_typeImport (.code (by decide)) _
    · exact .empty
  · obtain ⟨m, hm, rfl⟩ := List.mem_map.mp ht
    exact piece_indexLine d (h m hm)

end Promptwright
