import Promptwright.Package.Module
import Promptwright.Proofs.Json.Rephrased
import Promptwright.Proofs.Validator.Wording

/-!
# Modules of reworded prompts

Two prompts are `Reworded` if they differ in free text only: in what people and models write and in
texts inside their messages and schemas.  The modules of such prompts differ in string literals and
comments only, so no text of a prompt gets into the code of its module.

## Key results

- `alike_messagesSource`: messages
- `alikeFragment_source`, `alikeEntry_source`: validators and tools
- `alikeContent_of_reworded`: what the modules of reworded prompts hold
- `skeleton_source_of_reworded`: the texts of the modules
-/

namespace Promptwright

open Script (Alike CodeText wordText_nat)
open Validator (AlikeSource)

/-! ## Prompts in other words -/

/-- Two calls with other texts. -/
def ToolCall.Reworded (c c' : ToolCall) : Prop := Json.Rephrased c.arguments c'.arguments

/-- Two messages with other texts. -/
inductive Message.Reworded : Message → Message → Prop
  | user (content content' : String) {name name' : Option String}
      (h : name.isSome = name'.isSome) :
      Reworded (.user content name) (.user content' name')
  | assistant (content content' : String) {cs cs' : List ToolCall}
      (h : List.Forall₂ ToolCall.Reworded cs cs') :
      Reworded (.assistant content cs) (.assistant content' cs')
  | tool (callId callId' name name' : String) {j k : Json} (h : Json.Rephrased j k)
      (isError : Bool) :
      Reworded (.tool callId name j isError) (.tool callId' name' k isError)

/-- Two schemas in other words. -/
def Schema.Reworded (s t : Schema) : Prop := Validator.Reworded s.value t.value

/-- Two tools of the same name in other words. -/
structure Tool.Reworded (t u : Tool) : Prop where
  name : t.name = u.name
  parameters : t.parameters.Reworded u.parameters

/-- Two prompts of the same name and version in other words.  The system texts, and the names of
the models if there are any, may be anything. -/
structure Prompt.Reworded (p q : Prompt) : Prop where
  name : p.name = q.name
  version : p.version = q.version
  model : p.model.isSome = q.model.isSome
  temperature : p.temperature = q.temperature
  fewShot : List.Forall₂ Message.Reworded p.fewShot q.fewShot
  final : List.Forall₂ Message.Reworded p.final q.final
  tools : List.Forall₂ Tool.Reworded p.tools q.tools
  schema : Option.Rel Schema.Reworded p.schema q.schema

/-! ## Pieces of modules -/

/-- Alike texts on lines. -/
theorem alike_line {s t : String} (h : Alike s t) : Alike (line s) (line t) :=
  h.append (.code (by decide))

/-- Alike texts on lines, between a key and a comma. -/
theorem alike_member {key s t : String} (hkey : CodeText key) (h : Alike s t) :
    Alike (line (key ++ s ++ ",")) (line (key ++ t ++ ",")) :=
  alike_line (((Alike.code hkey).append h).append (.code (by decide)))

/-! ## Messages -/

/-- Reworded calls are rephrased values. -/
theorem rephrased_toolCall {c c' : ToolCall} (h : c.Reworded c') :
    Json.Rephrased c.toJson c'.toJson :=
  .object (.cons _ _ (.string _ _) (.cons _ _
    (.object (.cons _ _ (.string _ _) (.cons _ _ h .nil))) .nil))

/-- Reworded messages are rephrased values. -/
theorem rephrased_message {m m' : Message} (h : m.Reworded m') :
    Json.Rephrased m.toJson m'.toJson := by
  cases h with
  | @user content content' name name' h =>
    -- a name is there on both sides or on none
    cases name <;> cases name'
    · exact .object (.cons _ _ (.string _ _) (.cons _ _ (.string _ _) .nil))
    · cases h
    · cases h
    · exact .object (.cons _ _ (.string _ _) (.cons _ _ (.string _ _)
        (.cons _ _ (.string _ _) .nil)))
  | assistant content content' h =>
    cases h with
    | nil => exact .object (.cons _ _ (.string _ _) (.cons _ _ (.string _ _) .nil))
    | @cons c c' cs cs' hc hcs =>
      have hcalls : List.Forall₂ Json.Rephrased ((c :: cs).map ToolCall.toJson)
          ((c' :: cs').map ToolCall.toJson) := by
        refine List.rel_map ?_ (.cons hc hcs)
        exact fun _ _ => rephrased_toolCall
      exact .object (.cons _ _ (.string _ _) (.cons _ _ (.string _ _)
        (.cons _ _ (.array (Json.rephrasedItems_of_forall₂ hcalls)) .nil)))
  | tool callId callId' name name' h isError =>
    exact .object (.cons _ _ (.string _ _) (.cons _ _ (.string _ _) (.cons _ _ (.string _ _)
      (.cons _ _ h (.cons _ _ (.bool isError) .nil)))))

/-- Reworded messages under a key are alike. -/
theorem alike_messagesSource {key : String} (hkey : CodeText key) {ms ns : List Message}
    (h : List.Forall₂ Message.Reworded ms ns) :
    Alike (messagesSource key ms) (messagesSource key ns) := by
  have hjson : List.Forall₂ Json.Rephrased (ms.map Message.toJson) (ns.map Message.toJson) := by
    refine List.rel_map ?_ h
    exact fun _ _ => rephrased_message
  have hlist : Alike (Message.listToJson ms).pretty (Message.listToJson ns).pretty :=
    Json.alike_prettyAt (.array (Json.rephrasedItems_of_forall₂ hjson)) 0
  cases h with
  | nil => exact .code (t := "") (by decide)
  | cons _ _ =>
    exact alike_member (hkey.append (by decide)) hlist

/-! ## Validators -/

/-- Two alike validators that are bound to the same name. -/
structure AlikeFragment (f g : Fragment) : Prop where
  binding : f.binding = g.binding
  code : CodeText f.binding
  validator : AlikeSource f.validator g.validator

/-- Alike validators are bound by alike statements. -/
theorem alikeFragment_source (d : Dialect) {f g : Fragment} (h : AlikeFragment f g) :
    Alike (f.source d) (g.source d) := by
  obtain ⟨binding, v⟩ := f
  obtain ⟨binding', w⟩ := g
  obtain ⟨rfl, hcode, hv⟩ := h
  have hb : Alike binding binding := .code hcode
  -- the lines differ in the text of the validator only
  have hbound : ∀ start, CodeText start →
      Alike (line (start ++ binding ++ " = " ++ v.source ++ ";"))
        (line (start ++ binding ++ " = " ++ w.source ++ ";")) := fun start hstart =>
    alike_line (((((Alike.code hstart).append hb).append (.code (by decide))).append hv).append
      (.code (by decide)))
  have hexport := alike_line (((((Alike.code (t := "module.exports.") (by decide)).append
    hb).append (.code (t := " = ") (by decide))).append hb).append (.code (t := ";") (by decide)))
  have htype : ∀ mark, CodeText mark →
      Alike (line (mark ++ "type " ++ String.ofList (Identifiers.upperFirst binding.toList) ++
          " = z.infer<typeof " ++ binding ++ ">;"))
        (line (mark ++ "type " ++ String.ofList (Identifiers.upperFirst binding.toList) ++
          " = z.infer<typeof " ++ binding ++ ">;")) := fun mark hmark =>
    alike_line (((((((Alike.code hmark).append (.code (by decide))).append
      (.code (Script.codeText_upperFirst hcode))).append (.code (by decide))).append hb).append
      (.code (by decide))))
  obtain ⟨-, -, style, typed, -, -⟩ := d
  cases style with
  | esm =>
    cases typed with
    | false => exact hbound "export const " (by decide)
    | true => exact (hbound "export const " (by decide)).append (htype "export " (by decide))
  | commonJs =>
    cases typed with
    | false => exact (hbound "const " (by decide)).append hexport
    | true =>
      exact ((hbound "const " (by decide)).append hexport).append (htype "" (by decide))

/-! ## Tools -/

/-- Two tools with the same validator. -/
structure AlikeEntry (t u : ToolEntry) : Prop where
  parameters : t.parameters = u.parameters
  code : CodeText t.parameters

/-- Tools with the same validator are listed alike. -/
theorem alikeEntry_source {t u : ToolEntry} (h : AlikeEntry t u) : Alike t.source u.source := by
  obtain ⟨name, description, binding⟩ := t
  obtain ⟨name', description', binding'⟩ := u
  obtain ⟨rfl, hcode⟩ := h
  exact ((((Alike.code (by decide)).append
    (alike_member (by decide) (.quote name name'))).append
    (alike_member (by decide) (.quote description description'))).append
    (alike_member (by decide) (.code hcode))).append (.code (by decide))

/-! ## Modules -/

/-- Two modules that differ in free text only. -/
structure AlikeContent (m n : ModuleContent) : Prop where
  binding : m.binding = n.binding
  code : CodeText m.binding
  prompt : m.prompt.Reworded n.prompt
  tools : List.Forall₂ AlikeEntry m.tools n.tools
  schema : m.schema = n.schema
  schemaCode : ∀ b ∈ m.schema, CodeText b
  fragments : List.Forall₂ AlikeFragment m.fragments n.fragments

variable {m n : ModuleContent}

/-- The imports are the same. -/
theorem alike_imports (d : Dialect) (h : AlikeContent m n) :
    Alike (m.imports d) (n.imports d) := by
  refine Alike.append ?_ ?_
  · rw [isEmpty_eq_of_forall₂ h.fragments]
    split
    · exact .code (by decide)
    · split <;> exact alike_line (((Alike.code (by decide)).append (.quote _ _)).append
        (.code (by decide)))
  · split
    · exact alike_line ((((Alike.code (by decide)).append (.code (by decide))).append
        (.quote _ _)).append (.code (by decide)))
    · exact .code (by decide)

/-- The validators are alike one by one. -/
theorem alike_validators (d : Dialect) (h : AlikeContent m n) :
    Alike (m.validators d) (n.validators d) := by
  refine Validator.alike_concat (List.rel_map (fun f g hfg => ?_) h.fragments)
  exact (Alike.code (by decide)).append (alikeFragment_source d hfg)

/-- The prompt objects are started in the same way. -/
theorem alike_opening (d : Dialect) (h : AlikeContent m n) :
    Alike (m.opening d) (n.opening d) := by
  have hb : Alike m.binding n.binding := h.binding ▸ .code h.code
  have ha : ∀ typed : Bool, CodeText (if typed then ": " ++ promptType else "") := by decide
  have hline : ∀ start, CodeText start →
      Alike (line (start ++ m.binding ++ (if d.typed then ": " ++ promptType else "") ++ " = \x7b"))
        (line (start ++ n.binding ++ (if d.typed then ": " ++ promptType else "") ++ " = \x7b")) :=
    fun start hstart => alike_line ((((Alike.code hstart).append hb).append
      (.code (ha d.typed))).append (.code (by decide)))
  rw [ModuleContent.opening, ModuleContent.opening]
  cases d.style with
  | esm => exact hline "export const " (by decide)
  | commonJs => exact hline "const " (by decide)

/-- The models are written in the same way, if there are any. -/
theorem alike_model (h : AlikeContent m n) :
    Alike (match m.prompt.model with | some model => Script.quote model | none => "undefined")
      (match n.prompt.model with | some model => Script.quote model | none => "undefined") := by
  have hsome := h.prompt.model
  cases hm : m.prompt.model <;> cases hn : n.prompt.model <;> rw [hm, hn] at hsome
  · exact .code (by decide)
  · cases hsome
  · cases hsome
  · exact .quote _ _

/-- The tools are listed in the same way, if there are any. -/
theorem alike_tools (h : AlikeContent m n) :
    Alike (if m.tools.isEmpty then ""
        else line "tools: [" ++ (m.tools.map ToolEntry.source).foldr (· ++ ·) "" ++ line "],")
      (if n.tools.isEmpty then ""
        else line "tools: [" ++ (n.tools.map ToolEntry.source).foldr (· ++ ·) "" ++ line "],") := by
  rw [isEmpty_eq_of_forall₂ h.tools]
  split
  · exact .code (by decide)
  · refine ((Alike.code (by decide)).append (Validator.alike_concat ?_)).append (.code (by decide))
    refine List.rel_map ?_ h.tools
    exact fun _ _ => alikeEntry_source

/-- The validator of the answer is named in the same way, if there is one. -/
theorem alike_schema (h : AlikeContent m n) :
    Alike (match m.schema with | some binding => line ("schema: " ++ binding ++ ",") | none => "")
      (match n.schema with | some binding => line ("schema: " ++ binding ++ ",") | none => "") := by
  have hcode := h.schemaCode
  rw [← h.schema]
  cases hb : m.schema with
  | none => exact .code (by decide)
  | some b => exact alike_member (by decide) (.code (hcode b hb))

/-- The members of the prompt objects. -/
theorem alike_literal (h : AlikeContent m n) : Alike m.literal n.literal := by
  have hp := h.prompt
  have hname := alike_member (by decide : CodeText "name: ") (.quote m.prompt.name n.prompt.name)
  have hversion : Alike (toString m.prompt.version) (toString n.prompt.version) :=
    hp.version ▸ .code (wordText_nat _).codeText
  have htemperature : Alike (m.prompt.temperature.positional "")
      (n.prompt.temperature.positional "") :=
    hp.temperature ▸ .code (Script.wordText_positional (by decide) _).codeText
  have hsystem := alike_member (by decide : CodeText "systemPrompt: ")
    (.quote m.prompt.system n.prompt.system)
  exact ((((((((hname.append (alike_member (by decide) hversion)).append
    (alike_member (by decide) (alike_model h))).append
    (alike_member (by decide) htemperature)).append hsystem).append
    (alike_messagesSource (by decide) hp.fewShot)).append
    (alike_messagesSource (by decide) hp.final)).append
    (alike_tools h)).append (alike_schema h)).append (.code (by decide))

/-- The prompt objects are exported in the same way. -/
theorem alike_closing (d : Dialect) (h : AlikeContent m n) :
    Alike (m.closing d) (n.closing d) := by
  have hb : Alike m.binding n.binding := h.binding ▸ .code h.code
  rw [ModuleContent.closing, ModuleContent.closing]
  cases d.style with
  | esm => exact .code (t := "") (by decide)
  | commonJs =>
    exact alike_line (((((Alike.code (by decide)).append hb).append (.code (by decide))).append
      hb).append (.code (by decide)))

/-- The texts of the modules. -/
theorem alike_source (d : Dialect) (h : AlikeContent m n) : Alike (m.source d) (n.source d) := by
  have hblank : Alike "\n" "\n" := .code (by decide)
  have hstart := ((alike_imports d h).append (alike_validators d h)).append hblank
  exact ((hstart.append (alike_opening d h)).append (alike_literal h)).append (alike_closing d h)

/-! ## Prompts -/

/-- The validators of reworded schemas, bound to the same name. -/
theorem alikeFragment_of_reworded {binding : String} (hcode : CodeText binding) {s t : Schema}
    (h : s.Reworded t) {f g : Fragment} (hf : Fragment.ofSchema binding s = .ok f)
    (hg : Fragment.ofSchema binding t = .ok g) : AlikeFragment f g := by
  obtain ⟨v, hv, hf⟩ := bind_eq_ok hf
  obtain ⟨w, hw, hg⟩ := bind_eq_ok hg
  cases hf
  cases hg
  exact ⟨rfl, hcode, Validator.alike_source_of_reworded _ h ⟨[], hv⟩ ⟨[], hw⟩⟩

/-- The names of validators of tools are code. -/
theorem codeText_parameters (t : Tool) : CodeText (ToolEntry.ofTool t).parameters :=
  (Script.wordText_camel t.name).codeText.append (by decide)

/-- The validators of reworded tools. -/
theorem alikeFragment_of_tool {t u : Tool} (h : t.Reworded u) {f g : Fragment}
    (hf : ModuleContent.toolFragment t = .ok f) (hg : ModuleContent.toolFragment u = .ok g) :
    AlikeFragment f g := by
  have hbinding : (ToolEntry.ofTool t).parameters = (ToolEntry.ofTool u).parameters := by
    rw [ToolEntry.ofTool, ToolEntry.ofTool, h.name]
  rw [ModuleContent.toolFragment, ← hbinding] at hg
  exact alikeFragment_of_reworded (codeText_parameters t) h.parameters hf hg

/-- The names of validators of answers are code. -/
theorem codeText_schemaBindingOf (p : Prompt) : CodeText (ModuleContent.schemaBindingOf p) :=
  ((Script.wordText_camel p.name).codeText.append (by decide)).append
    (wordText_nat p.version).codeText

variable {p q : Prompt}

/-- The validators of answers of reworded prompts. -/
theorem alikeFragment_of_answer (h : p.Reworded q) {fs gs : List Fragment}
    (hfs : ModuleContent.answerFragments p = .ok fs)
    (hgs : ModuleContent.answerFragments q = .ok gs) : List.Forall₂ AlikeFragment fs gs := by
  have hbinding : ModuleContent.schemaBindingOf p = ModuleContent.schemaBindingOf q := by
    rw [ModuleContent.schemaBindingOf, ModuleContent.schemaBindingOf, h.name, h.version]
  have hschema := h.schema
  rw [ModuleContent.answerFragments] at hfs hgs
  cases hs : p.schema <;> cases ht : q.schema <;> rw [hs, ht] at hschema
  · rw [hs] at hfs
    rw [ht] at hgs
    cases hfs
    cases hgs
    exact .nil
  · cases hschema
  · cases hschema
  · rw [hs] at hfs
    rw [ht, ← hbinding] at hgs
    cases hschema with
    | some hst =>
      obtain ⟨f, hf, hfs⟩ := bind_eq_ok hfs
      obtain ⟨g, hg, hgs⟩ := bind_eq_ok hgs
      cases hfs
      cases hgs
      exact .cons (alikeFragment_of_reworded (codeText_schemaBindingOf p) hst hf hg) .nil

/-- What the modules of reworded prompts hold. -/
theorem alikeContent_of_reworded (h : p.Reworded q)
    (hm : ModuleContent.ofPrompt p = .ok m) (hn : ModuleContent.ofPrompt q = .ok n) :
    AlikeContent m n := by
  rw [ModuleContent.ofPrompt] at hm hn
  obtain ⟨fs, hfs, hm⟩ := bind_eq_ok hm
  obtain ⟨as, has, hm⟩ := bind_eq_ok hm
  obtain rfl := Except.ok.inj hm
  obtain ⟨gs, hgs, hn⟩ := bind_eq_ok hn
  obtain ⟨bs, hbs, hn⟩ := bind_eq_ok hn
  obtain rfl := Except.ok.inj hn
  -- the tools are the same one by one, up to their wording
  have hentries : List.Forall₂ AlikeEntry (p.tools.map ToolEntry.ofTool)
      (q.tools.map ToolEntry.ofTool) :=
    List.rel_map (fun t u htu =>
      ⟨by rw [ToolEntry.ofTool, ToolEntry.ofTool, htu.name], codeText_parameters t⟩) h.tools
  exact {
    binding := by
      show ModuleContent.bindingOf p = ModuleContent.bindingOf q
      rw [ModuleContent.bindingOf, ModuleContent.bindingOf, h.name, h.version]
    code := ((Script.wordText_camel p.name).codeText.append (by decide)).append
      (wordText_nat p.version).codeText
    prompt := h
    tools := hentries
    schema := by
      show p.schema.map _ = q.schema.map _
      rw [ModuleContent.schemaBindingOf, ModuleContent.schemaBindingOf, h.name, h.version]
      have hschema := h.schema
      generalize p.schema = s at hschema ⊢
      generalize q.schema = t at hschema ⊢
      cases hschema <;> rfl
    schemaCode := by
      intro b hb
      obtain ⟨-, -, rfl⟩ := Option.map_eq_some_iff.mp hb
      exact codeText_schemaBindingOf p
    fragments := List.rel_append
      (forall₂_partners (mapM_eq_ok hfs) (mapM_eq_ok hgs) h.tools fun _ _ _ _ _ htu hf hg =>
        alikeFragment_of_tool htu hf hg)
      (alikeFragment_of_answer h has hbs) }

/-- Free text never gets into the code of a module: modules of reworded prompts are the same, apart
from comments and what stands between double quotes. -/
theorem skeleton_source_of_reworded (d : Dialect) (h : p.Reworded q)
    (hm : ModuleContent.ofPrompt p = .ok m) (hn : ModuleContent.ofPrompt q = .ok n) :
    Script.skeleton (m.source d) = Script.skeleton (n.source d) :=
  (alike_source d (alikeContent_of_reworded h hm hn)).skeleton_eq

/-- A schema with the same words wherever there is free text. -/
def echoingSchema (words : String) : Schema where
  value := .object [
    ("type", .string "object"),
    ("description", .string words),
    ("properties", .object [
      ("text", .object [("type", .string "string"), ("pattern", .string words)]),
      ("constant", .object [("const", .string words)]),
      ("several", .object [("enum", .array [.string words, .null])]),
      ("unknown", .object [("type", .string words)])])]

/-- A prompt with the same words wherever there is free text. -/
def echoing (words : String) : Prompt where
  name := "echo"
  model := some words
  system := words
  fewShot := [.user words (some words), .assistant words [⟨words, words, .array [.string words]⟩]]
  final := [.tool words words (.object [(words, .string words)]) false]
  tools := [⟨"look up", words, echoingSchema words⟩]

/-- Other words make it another schema in other words, unless they name a type. -/
theorem reworded_echoingSchema {s t : String} (hs : s ∉ Validator.kinds)
    (ht : t ∉ Validator.kinds) : (echoingSchema s).Reworded (echoingSchema t) := by
  have hdescription : Validator.RewordedKeyword "description" (.string s) (.string t) :=
    .text (by decide) s t
  have hpattern : Validator.RewordedKeyword "pattern" (.string s) (.string t) :=
    .text (by decide) s t
  have hconst : Validator.RewordedKeyword "const" (.string s) (.string t) := .const rfl (.text s t)
  have henum : Validator.RewordedKeyword "enum" (.array [.string s, .null])
      (.array [.string t, .null]) :=
    .enum rfl (.cons (.text s t) (.cons (.same .null) .nil))
  have htype : Validator.RewordedKeyword "type" (.string s) (.string t) :=
    .type rfl (.unknown hs ht)
  exact .node (.cons (.mk (.same _ _)) (.cons (.mk hdescription) (.cons (.mk (.properties rfl
    (.cons (.mk (.node (.cons (.mk (.same _ _)) (.cons (.mk hpattern) .nil))))
    (.cons (.mk (.node (.cons (.mk hconst) .nil)))
    (.cons (.mk (.node (.cons (.mk henum) .nil)))
    (.cons (.mk (.node (.cons (.mk htype) .nil))) .nil)))))) .nil)))

/-- Other words make it another prompt in other words, unless they name a type. -/
theorem reworded_echoing {s t : String} (hs : s ∉ Validator.kinds) (ht : t ∉ Validator.kinds) :
    (echoing s).Reworded (echoing t) where
  name := rfl
  version := rfl
  model := rfl
  temperature := rfl
  fewShot := .cons (.user s t rfl) (.cons (.assistant s t
    (.cons (.array (.cons (.string s t) .nil)) .nil)) .nil)
  final := .cons (.tool s t s t (.object (.cons s t (.string s t) .nil)) false) .nil
  tools := .cons ⟨rfl, reworded_echoingSchema hs ht⟩ .nil
  schema := .none

/-- Words that try to end a literal and a comment do not show in the code. -/
theorem skeleton_source_of_reworded_echoing :
    ∃ m n, ModuleContent.ofPrompt (echoing "echo") = .ok m ∧
      ModuleContent.ofPrompt (echoing "\\\" */ run(); // \n") = .ok n ∧
      (echoing "echo").Reworded (echoing "\\\" */ run(); // \n") ∧
      Script.skeleton (m.source .deno) = Script.skeleton (n.source .deno) :=
  have h := reworded_echoing (s := "echo") (t := "\\\" */ run(); // \n") (by decide) (by decide)
  ⟨_, _, rfl, rfl, h, skeleton_source_of_reworded .deno h rfl rfl⟩

end Promptwright
