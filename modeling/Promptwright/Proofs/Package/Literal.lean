import Promptwright.Proofs.Json.Told
import Promptwright.Proofs.Package.Pieces

/-!
# The prompt object tells the prompt

Two prompts with the same module text agree in everything that the prompt object holds.  The
object is found behind the validators, whatever comments they carry: a validator is read up to the
semicolon of its statement, and the statement of the prompt object goes on differently behind its
name.  From there on the members are told apart one by one, those that may be missing by their keys.

## Key results

- `Message.toJson_injective`: a message is known from its JSON value
- `told_validators`: the prompt object is found behind the validators
- `told_literal`: the members of the prompt object
- `sameLiteral_of_contents_eq`: prompts with the same module text
-/

namespace Promptwright

open Script (OptionalPart Starts StartsIn Stops Told ToldWord WordText)

/-! ## Messages -/

/-- A call is known from its JSON value. -/
theorem ToolCall.toJson_injective : Function.Injective ToolCall.toJson := by
  intro c c' h
  obtain ⟨id, name, arguments⟩ := c
  obtain ⟨id', name', arguments'⟩ := c'
  simp only [toJson, Json.object.injEq, List.cons.injEq, Prod.mk.injEq, Json.string.injEq] at h
  obtain ⟨⟨-, rfl⟩, ⟨-, ⟨-, rfl⟩, ⟨-, rfl⟩, -⟩, -⟩ := h
  rfl

namespace Message

/-- Who wrote a message. -/
def role : Message → String
  | .user .. => "user"
  | .assistant .. => "assistant"
  | .tool .. => "tool"

/-- The role of a message stands in its JSON value. -/
theorem get?_role (m : Message) : m.toJson.get? "role" = some (.string m.role) := by
  cases m with
  | user content name => cases name <;> rfl
  | assistant content calls => cases calls <;> rfl
  | tool callId name result isError => rfl

/-- A message is known from its JSON value. -/
theorem toJson_injective : Function.Injective toJson := by
  intro a b h
  -- messages of different kinds have different roles
  have hrole : a.role = b.role := by
    have hget := congrArg (Json.get? · "role") h
    simp only [get?_role, Option.some.injEq, Json.string.injEq] at hget
    exact hget
  cases a with
  | user content name =>
    cases b with
    | user content' name' =>
      -- a name that is missing leaves no member, so the members tell the two apart
      cases name <;> cases name' <;> simp [toJson] at h ⊢
      · exact h
      · exact h
    | _ => simp [role] at hrole
  | assistant content calls =>
    cases b with
    | assistant content' calls' =>
      have hmap : Function.Injective (List.map ToolCall.toJson) :=
        List.map_injective_iff.mpr ToolCall.toJson_injective
      cases calls with
      | nil =>
        cases calls' with
        | nil => simpa [toJson] using h
        | cons c' cs' => simp [toJson] at h
      | cons c cs =>
        cases calls' with
        | nil => simp [toJson] at h
        | cons c' cs' =>
          simp only [toJson, Json.object.injEq, List.cons.injEq, Prod.mk.injEq,
            Json.string.injEq, Json.array.injEq] at h
          obtain ⟨-, ⟨-, rfl⟩, ⟨-, hcalls⟩, -⟩ := h
          rw [hmap hcalls]
    | _ => simp [role] at hrole
  | tool callId name result isError =>
    cases b with
    | tool callId' name' result' isError' => simpa [toJson] using h
    | _ => simp [role] at hrole

/-- A conversation is known from its JSON value. -/
theorem listToJson_injective : Function.Injective listToJson := by
  intro ms ns h
  exact List.map_injective_iff.mpr toJson_injective (Json.array.inj h)

end Message

/-! ## Validators -/

/-- A call of the library starts with its name. -/
theorem startsIn_library {cs : List Char} (h : ['z'] <+: cs) :
    StartsIn [['z'], ['/']] (String.ofList cs) :=
  ⟨['z'], List.mem_cons_self, .given h⟩

/-- A validator starts with the name of the library or with a comment. -/
theorem startsIn_source : (v : Validator) → StartsIn [['z'], ['/']] v.source
  | .any => startsIn_library (by decide)
  | .never => startsIn_library (by decide)
  | .unknown gap => by
    obtain ⟨b, -, hgap⟩ := Script.exists_comment_eq gap
    have hcomment : StartsIn [['z'], ['/']] gap.comment := by
      rw [hgap]
      exact (StartsIn.append ⟨['/'], by decide, .given (by decide)⟩ _).append _
    exact hcomment.append _
  | .text _ => (startsIn_library (by decide)).append _
  | .number true _ => (startsIn_library (by decide)).append _
  | .number false _ => (startsIn_library (by decide)).append _
  | .boolean => startsIn_library (by decide)
  | .null => startsIn_library (by decide)
  | .literal _ => ((startsIn_library (by decide)).append _).append _
  | .choice _ => ((startsIn_library (by decide)).append _).append _
  | .union _ => ((startsIn_library (by decide)).append _).append _
  | .intersection _ _ => ((((startsIn_library (by decide)).append _).append _).append _).append _
  | .array _ _ => (((startsIn_library (by decide)).append _).append _).append _
  | .tuple _ _ => (((startsIn_library (by decide)).append _).append _).append _
  | .object properties _ => by
    cases properties with
    | nil => exact (startsIn_library (by decide)).append _
    | cons _ _ => exact (((startsIn_library (by decide)).append _).append _).append _
  | .nullable v => (startsIn_source v).append _
  | .described v _ => (((startsIn_source v).append _).append _).append _

variable {d : Dialect}

/-- How a statement starts that binds a name. -/
def bindingKeyword (d : Dialect) : String :=
  match d.style with
  | .esm => "export const "
  | .commonJs => "const "

namespace Fragment

/-- What follows the statement that binds a validator. -/
def declarations (d : Dialect) (binding : String) : String :=
  let export_ := match d.style with
    | .esm => ""
    | .commonJs => line ("module.exports." ++ binding ++ " = " ++ binding ++ ";")
  let mark := if d.style = .esm then "export " else ""
  let type := String.ofList (Identifiers.upperFirst binding.toList)
  "\n" ++ (export_ ++
    (if d.typed then line (mark ++ "type " ++ type ++ " = z.infer<typeof " ++ binding ++ ">;")
      else ""))

/-- The statements of a validator, part by part. -/
theorem source_eq (d : Dialect) (f : Fragment) :
    f.source d = bindingKeyword d ++ (f.binding ++ (" = " ++
      ((f.validator.source ++ ";") ++ declarations d f.binding))) := by
  rw [source, bindingKeyword, declarations, typeName]
  cases d.style <;> cases d.typed <;>
    simp only [line, String.append_assoc, String.empty_append, String.append_empty, reduceCtorEq,
      Bool.false_eq_true, ↓reduceIte]

end Fragment

/-- The start of the prompt object, part by part. -/
theorem ModuleContent.opening_eq (d : Dialect) (m : ModuleContent) :
    m.opening d = bindingKeyword d ++ (m.binding ++
      ((if d.typed then ": " ++ promptType else "") ++ (" = " ++ "\x7b\n"))) := by
  have hbrace : " = \x7b" ++ "\n" = " = " ++ "\x7b\n" := rfl
  rw [opening, bindingKeyword]
  cases d.style <;> cases d.typed <;>
    simp only [line, String.append_assoc, String.empty_append, Bool.false_eq_true, ↓reduceIte,
      hbrace]

/-- Statements that bind validators are read up to their ends. -/
theorem told_fragment {f g : Fragment} (hf : WordText f.binding) (hg : WordText g.binding) :
    Told (f.source d) (g.source d) True := by
  have hstops : ∀ f : Fragment, Stops (" = " ++ ((f.validator.source ++ ";") ++
      Fragment.declarations d f.binding)) := fun f => Script.stops_ofList (by decide) _
  have hrest : f.binding = g.binding →
      Told (" = " ++ ((f.validator.source ++ ";") ++ Fragment.declarations d f.binding))
        (" = " ++ ((g.validator.source ++ ";") ++ Fragment.declarations d g.binding)) True := by
    -- the other declarations are known from the name
    intro hname
    rw [hname]
    exact ((Told.statement (Validator.piece_source f.validator)
      (Validator.piece_source g.validator)).before _).after _ |>.mono fun _ => trivial
  rw [Fragment.source_eq, Fragment.source_eq]
  exact (((ToldWord.word hf hg).append (hstops f) (hstops g) hrest).after _).mono And.right

/-- The name of the prompt object is followed by its type or by its value. -/
theorem stops_typed (d : Dialect) :
    Stops ((if d.typed then ": " ++ promptType else "") ++ (" = " ++ "\x7b\n")) := by
  split
  · exact (Script.stops_ofList (by decide) _).append _
  · exact Script.stops_ofList (by decide) _

/-- The statement of a validator is told from the start of the prompt object. -/
theorem told_fragment_opening {f : Fragment} (hf : WordText f.binding) {m : ModuleContent}
    (hm : WordText m.binding) : Told (f.source d) (m.opening d) False := by
  have hend : Told (" = " ++ ((f.validator.source ++ ";") ++ Fragment.declarations d f.binding))
      ((if d.typed then ": " ++ promptType else "") ++ (" = " ++ "\x7b\n")) False := by
    split
    · have hspace : Starts [' '] " = " := .given (by decide)
      have hcolon : Starts [':'] ": " := .given (by decide)
      exact .differ (hspace.append _) ((hcolon.append _).append _) (by decide)
    · -- without a type, only what stands behind the name is different
      rw [String.empty_append]
      obtain ⟨cs, hcs, hstart⟩ := startsIn_source f.validator
      have hbrace : Starts ['\x7b'] "\x7b\n" := .given (by decide)
      refine Told.after _ (.differ ((hstart.append _).append _) hbrace ?_)
      have hheads : ∀ cs ∈ [['z'], ['/']], ¬cs <+: ['\x7b'] ∧ ¬['\x7b'] <+: cs := by decide
      exact hheads cs hcs
  rw [Fragment.source_eq, ModuleContent.opening_eq]
  exact (((ToldWord.word hf hm).append (Script.stops_ofList (by decide) _) (stops_typed d)
    fun _ => hend).after _).mono And.right

/-- The validators in front of the prompt object, each after a blank line. -/
def fragmentsText (d : Dialect) (fs : List Fragment) : String :=
  (fs.map fun f => "\n" ++ f.source d).foldr (· ++ ·) ""

/-- The first validator and what follows it. -/
theorem fragmentsText_cons (f : Fragment) (fs : List Fragment) (t : String) :
    fragmentsText d (f :: fs) ++ t = "\n" ++ (f.source d ++ (fragmentsText d fs ++ t)) := by
  rw [fragmentsText, List.map_cons, List.foldr_cons, String.append_assoc, String.append_assoc]
  rfl

/-- The start of the prompt object is read up to its end. -/
theorem told_opening {m n : ModuleContent} (hm : m.Named) (hn : n.Named) :
    Told (m.opening d) (n.opening d) True := by
  rw [ModuleContent.opening_eq, ModuleContent.opening_eq]
  exact (((ToldWord.word hm.binding hn.binding).append (stops_typed d)
    (stops_typed d) fun _ => Told.same _).after _).mono And.right

/-- The prompt object is found behind the validators. -/
theorem told_validators {m n : ModuleContent} (hm : WordText m.binding) (hn : WordText n.binding)
    {t u : String} {P : Prop} (hopening : Told (m.opening d ++ t) (n.opening d ++ u) P)
    {fs gs : List Fragment} (hfs : ∀ f ∈ fs, WordText f.binding)
    (hgs : ∀ g ∈ gs, WordText g.binding) :
    Told (fragmentsText d fs ++ ("\n" ++ (m.opening d ++ t)))
      (fragmentsText d gs ++ ("\n" ++ (n.opening d ++ u))) P := by
  induction fs generalizing gs with
  | nil =>
    cases gs with
    -- on the one side the prompt object starts here, and on the other one a validator
    | nil => exact (hopening.after _).after _
    | cons g gs =>
      have hg := told_fragment_opening (d := d) (hgs g List.mem_cons_self) hm
      rw [fragmentsText_cons]
      exact (hg.symm.never _ _).after _
  | cons f fs ih =>
    have hf := hfs f List.mem_cons_self
    cases gs with
    | nil =>
      rw [fragmentsText_cons]
      exact ((told_fragment_opening hf hn).never _ _).after _
    | cons g gs =>
      have hrest := ih (fun f hf => hfs f (List.mem_cons_of_mem _ hf))
        (fun g hg => hgs g (List.mem_cons_of_mem _ hg))
      rw [fragmentsText_cons, fragmentsText_cons]
      exact (((told_fragment hf (hgs g List.mem_cons_self)).append fun _ => hrest).after _).mono
        And.right

/-! ## The prompt object -/

variable {m n : ModuleContent}

/-- A member with a value. -/
theorem told_member (key : String) {t u : String} {P : Prop} (h : ToldWord t u P) :
    Told (line (key ++ t ++ ",")) (line (key ++ u ++ ",")) P := by
  simp only [line, String.append_assoc]
  exact (h.append (Script.stops_ofList (by decide) _) (Script.stops_ofList (by decide) _)
    fun _ => Told.same _).after key |>.mono And.left

/-- A literal is known from its text. -/
theorem toldWord_quote (s s' : String) : ToldWord (Script.quote s) (Script.quote s') (s = s') :=
  (Told.literal (Script.literal_quote s) (Script.literal_quote s')).toldWord

/-- A natural number is known from its text. -/
theorem toldWord_nat (i j : Nat) : ToldWord (toString i) (toString j) (i = j) := by
  refine (ToldWord.word (Script.wordText_nat i) (Script.wordText_nat j)).mono fun h => ?_
  rw [Nat.toString_eq_ofList_toDigits, Nat.toString_eq_ofList_toDigits] at h
  exact toDigits_injective (String.ofList_injective h)

/-- The model, or that there is none, is known from its text: a literal is not a word. -/
theorem toldWord_model (a b : Option String) :
    ToldWord (match a with
      | some model => Script.quote model
      | none => "undefined") (match b with
      | some model => Script.quote model
      | none => "undefined") (a = b) := by
  have hquote : ∀ model, Starts ['"'] (Script.quote model) := fun model => by
    rw [Script.quote, Starts, String.toList_ofList]
    exact ⟨_, rfl⟩
  have hundefined : Starts ['u'] "undefined" := .given (by decide)
  cases a with
  | none =>
    cases b with
    | none => exact ((Told.same _).mono fun _ => rfl).toldWord
    | some b => exact (Told.differ hundefined (hquote b) (by decide)).toldWord
  | some a =>
    cases b with
    | none => exact (Told.differ (hquote a) hundefined (by decide)).toldWord
    | some b => exact (toldWord_quote a b).mono (congrArg some)

/-- The temperature is known as a text. -/
theorem toldWord_temperature (x y : Binary64) : ToldWord (x.positional "") (y.positional "")
    (x.positional "" = y.positional "") :=
  .word (Script.wordText_positional (by decide) x) (Script.wordText_positional (by decide) y)

/-! ### Messages -/

/-- A prompt whose messages hold proper numbers only: the floating ones are finite and in the form
that all numbers of the format have. -/
structure Prompt.ProperMessages (p : Prompt) : Prop where
  fewShot : ∀ x ∈ p.fewShot, x.toJson.Proper
  final : ∀ x ∈ p.final, x.toJson.Proper

/-- A conversation with proper numbers. -/
theorem proper_listToJson {ms : List Message} (h : ∀ x ∈ ms, x.toJson.Proper) :
    (Message.listToJson ms).Proper := by
  refine Json.properItems_iff.mpr fun j hj => ?_
  obtain ⟨x, hx, rfl⟩ := List.mem_map.mp hj
  exact h x hx

/-- Messages that are there are a member of the prompt object. -/
theorem messagesSource_eq {key : String} {ms : List Message} (h : ms ≠ []) :
    messagesSource key ms = line (key ++ ": " ++ (Message.listToJson ms).pretty ++ ",") :=
  if_neg (by rwa [List.isEmpty_iff])

/-- Messages are missing if there are none. -/
theorem optional_messages {cs key : List Char} (h : cs <+: key) (ms : List Message) :
    OptionalPart cs (ms = []) (messagesSource (String.ofList key) ms) := by
  by_cases hms : ms = []
  · exact .inl ⟨hms, if_pos (List.isEmpty_iff.mpr hms)⟩
  · rw [messagesSource_eq hms]
    exact .inr ⟨hms, ((((Starts.given h).append _).append _).append _).append _⟩

/-- Messages that are there are known from their text. -/
theorem told_messages {key : String} {ms ns : List Message} (hms : ∀ x ∈ ms, x.toJson.Proper)
    (hns : ∀ x ∈ ns, x.toJson.Proper) (hm : ms ≠ []) (hn : ns ≠ []) :
    Told (messagesSource key ms) (messagesSource key ns) (ms = ns) := by
  have hvalue := (Json.toldWord_prettyAt 0 _ (proper_listToJson hms) _ (proper_listToJson hns)).mono
    fun h => Message.listToJson_injective h
  rw [messagesSource_eq hm, messagesSource_eq hn]
  exact told_member _ hvalue

/-! ### Tools -/

/-- What is known of a tool from the prompt object. -/
def ToolEntry.label (t : ToolEntry) : String × String := (t.name, t.description)

/-- A tool in a list. -/
theorem told_entry {t u : ToolEntry} (ht : WordText t.parameters) (hu : WordText u.parameters) :
    Told t.source u.source (t.label = u.label) := by
  have hname : Told (line ("name: " ++ Script.quote t.name ++ ","))
      (line ("name: " ++ Script.quote u.name ++ ",")) _ := told_member _ (toldWord_quote _ _)
  have hdescription : Told (line ("description: " ++ Script.quote t.description ++ ","))
      (line ("description: " ++ Script.quote u.description ++ ",")) _ :=
    told_member _ (toldWord_quote _ _)
  have hparameters : Told (line ("parameters: " ++ t.parameters ++ ","))
      (line ("parameters: " ++ u.parameters ++ ",")) _ := told_member _ (ToldWord.word ht hu)
  have hentry := (((hname.after (line "\x7b")).append fun _ => hdescription).append fun _ => hparameters).before
    (line "\x7d,")
  exact hentry.mono fun h => Prod.ext h.1.1 h.1.2

/-- The tools of a list. -/
def entriesText (ts : List ToolEntry) : String := (ts.map ToolEntry.source).foldr (· ++ ·) ""

/-- The first tool and what follows it. -/
theorem entriesText_cons (t : ToolEntry) (ts : List ToolEntry) (u : String) :
    entriesText (t :: ts) ++ u = t.source ++ (entriesText ts ++ u) := by
  rw [entriesText, List.map_cons, List.foldr_cons, String.append_assoc]
  rfl

/-- The tools of a list and its end. -/
theorem told_entries {ts us : List ToolEntry} (hts : ∀ t ∈ ts, WordText t.parameters)
    (hus : ∀ u ∈ us, WordText u.parameters) :
    Told (entriesText ts ++ line "],") (entriesText us ++ line "],")
      (ts.map ToolEntry.label = us.map ToolEntry.label) := by
  have hend : Starts [']'] (entriesText [] ++ line "],") := by
    rw [entriesText, List.map_nil, List.foldr_nil, String.empty_append]
    exact (Starts.given (by decide)).append _
  have hbrace : Starts ['\x7b'] (line "\x7b") := (Starts.given (by decide)).append _
  have hstart : ∀ (t : ToolEntry) u, Starts ['\x7b'] (t.source ++ u) := fun t u =>
    ((((hbrace.append _).append _).append _).append _).append u
  induction ts generalizing us with
  | nil =>
    cases us with
    -- the list ends on the one side, and goes on with a brace on the other
    | nil => exact (Told.same _).mono fun _ => rfl
    | cons u us =>
      rw [entriesText_cons]
      exact .differ hend (hstart u _) (by decide)
  | cons t ts ih =>
    cases us with
    | nil =>
      rw [entriesText_cons]
      exact .differ (hstart t _) hend (by decide)
    | cons u us =>
      have hentry := told_entry (hts t List.mem_cons_self) (hus u List.mem_cons_self)
      have hrest := ih (fun t ht => hts t (List.mem_cons_of_mem _ ht))
        (fun u hu => hus u (List.mem_cons_of_mem _ hu))
      rw [entriesText_cons, entriesText_cons, List.map_cons, List.map_cons]
      exact (hentry.append fun _ => hrest).mono fun h => by rw [h.1, h.2]

/-- The tools of a prompt object, if there are any. -/
def toolsText (m : ModuleContent) : String :=
  if m.tools.isEmpty then "" else line "tools: [" ++ entriesText m.tools ++ line "],"

/-- Tools that are there are a list. -/
theorem toolsText_eq {m : ModuleContent} (h : m.tools ≠ []) :
    toolsText m = line "tools: [" ++ (entriesText m.tools ++ line "],") := by
  rw [← String.append_assoc]
  exact if_neg (by rwa [List.isEmpty_iff])

/-- Tools are missing if there are none. -/
theorem optional_tools (m : ModuleContent) : OptionalPart ['t'] (m.tools = []) (toolsText m) := by
  by_cases hm : m.tools = []
  · exact .inl ⟨hm, if_pos (List.isEmpty_iff.mpr hm)⟩
  · rw [toolsText_eq hm]
    exact .inr ⟨hm, ((Starts.given (by decide)).append _).append _⟩

/-- Tools that are there are known from their text. -/
theorem told_tools (hm : m.Named) (hn : n.Named) (hmt : m.tools ≠ []) (hnt : n.tools ≠ []) :
    Told (toolsText m) (toolsText n)
      (m.tools.map ToolEntry.label = n.tools.map ToolEntry.label) := by
  rw [toolsText_eq hmt, toolsText_eq hnt]
  exact (told_entries hm.parameters hn.parameters).after _

/-! ### The answer -/

/-- The validator of the answer is missing if there is none. -/
theorem optional_schema (m : ModuleContent) :
    OptionalPart ['s'] (m.schema.isSome = false) m.schemaText := by
  rw [ModuleContent.schemaText]
  cases hm : m.schema with
  | none => exact .inl ⟨rfl, rfl⟩
  | some binding =>
    exact .inr ⟨by simp, (((Starts.given (by decide)).append _).append _).append _⟩

/-- The validator of the answer is read up to the end of its line. -/
theorem told_schema (hm : m.Named) (hn : n.Named) (hms : ¬m.schema.isSome = false)
    (hns : ¬n.schema.isSome = false) :
    Told m.schemaText n.schemaText (m.schema.isSome = n.schema.isSome) := by
  obtain ⟨b, hb⟩ := Option.isSome_iff_exists.mp (Bool.eq_true_of_not_eq_false hms)
  obtain ⟨b', hb'⟩ := Option.isSome_iff_exists.mp (Bool.eq_true_of_not_eq_false hns)
  have hwords := ToldWord.word (hm.schema b hb) (hn.schema b' hb')
  rw [ModuleContent.schemaText, ModuleContent.schemaText, hb, hb']
  exact (told_member _ hwords).mono fun _ => rfl

/-! ### All members -/

/-- The members that may be missing, and the end of the prompt object. -/
def optionalMembers (m : ModuleContent) : String :=
  messagesSource "fewShotMessages" m.prompt.fewShot ++
    (messagesSource "finalMessages" m.prompt.final ++
      (toolsText m ++ (m.schemaText ++ line "\x7d;")))

/-- The members that may be missing are known from their text. -/
theorem told_optionalMembers (hm : m.Named) (hn : n.Named) (hmp : m.prompt.ProperMessages)
    (hnp : n.prompt.ProperMessages) :
    Told (optionalMembers m) (optionalMembers n)
      (m.prompt.fewShot = n.prompt.fewShot ∧ m.prompt.final = n.prompt.final ∧
        m.tools.map ToolEntry.label = n.tools.map ToolEntry.label ∧
        m.schema.isSome = n.schema.isSome ∧ True) := by
  have hfewShot : ∀ ms, OptionalPart ['f', 'e'] (ms = []) (messagesSource "fewShotMessages" ms) :=
    optional_messages (by decide)
  have hfinal : ∀ ms, OptionalPart ['f', 'i'] (ms = []) (messagesSource "finalMessages" ms) :=
    optional_messages (by decide)
  have hend : StartsIn [['\x7d']] (line "\x7d;") :=
    ⟨_, List.mem_cons_self, (Starts.given (by decide)).append _⟩
  have hschema := fun m : ModuleContent => StartsIn.optional (optional_schema m) hend
  have htools := fun m : ModuleContent => StartsIn.optional (optional_tools m) (hschema m)
  have hmessages := fun m : ModuleContent =>
    StartsIn.optional (hfinal m.prompt.final) (htools m)
  -- each member is there on both sides or on none, as the others start with other characters
  refine .optional (by decide) (hfewShot _) (hfewShot _) (fun h h' => by rw [h, h'])
    (told_messages hmp.fewShot hnp.fewShot) (hmessages m) (hmessages n) ?_
  refine .optional (by decide) (hfinal _) (hfinal _) (fun h h' => by rw [h, h'])
    (told_messages hmp.final hnp.final) (htools m) (htools n) ?_
  refine .optional (by decide) (optional_tools m) (optional_tools n) (fun h h' => by rw [h, h'])
    (told_tools hm hn) (hschema m) (hschema n) ?_
  exact .optional (by decide) (optional_schema m) (optional_schema n)
    (fun h h' => by rw [h, h']) (told_schema hm hn) hend hend (Told.same _)

/-- The prompt object, part by part. -/
theorem ModuleContent.literal_eq (m : ModuleContent) :
    m.literal = line ("name: " ++ Script.quote m.prompt.name ++ ",") ++
      (line ("version: " ++ toString m.prompt.version ++ ",") ++
      (line ("model: " ++ m.modelText ++ ",") ++
      (line ("temperature: " ++ m.prompt.temperature.positional "" ++ ",") ++
      (line ("systemPrompt: " ++ Script.quote m.prompt.system ++ ",") ++ optionalMembers m)))) := by
  rw [literal, modelText, optionalMembers, toolsText, schemaText, entriesText]
  cases m.prompt.model <;> cases m.schema <;> simp only [String.append_assoc]

/-- What the prompt object shows of a tool. -/
def Tool.label (t : Tool) : String × String := ((Identifiers.forBinding t.name).snake, t.description)

/-- Prompts that agree in everything that a prompt object holds: of the temperature that is its
text, of the tools their names in snake case and their descriptions, and of the schema of the
answer that there is one. -/
structure SameLiteral (p q : Prompt) : Prop where
  name : p.name = q.name
  version : p.version = q.version
  model : p.model = q.model
  temperature : p.temperature.positional "" = q.temperature.positional ""
  system : p.system = q.system
  fewShot : p.fewShot = q.fewShot
  final : p.final = q.final
  tools : p.tools.map Tool.label = q.tools.map Tool.label
  schema : p.schema.isSome = q.schema.isSome

/-- What the module of a prompt takes from it. -/
theorem ofPrompt_eq_ok {p : Prompt} {m : ModuleContent} (h : ModuleContent.ofPrompt p = .ok m) :
    m.prompt = p ∧ m.tools.map ToolEntry.label = p.tools.map Tool.label ∧
      m.schema.isSome = p.schema.isSome := by
  obtain ⟨ofTools, -, h⟩ := bind_eq_ok h
  obtain ⟨ofAnswer, -, h⟩ := bind_eq_ok h
  obtain rfl := Except.ok.inj h
  refine ⟨rfl, ?_, Option.isSome_map⟩
  rw [List.map_map]
  rfl

/-- The members of the prompt object are known from their text. -/
theorem told_literal {p q : Prompt} (hm : ModuleContent.ofPrompt p = .ok m)
    (hn : ModuleContent.ofPrompt q = .ok n) (hp : p.ProperMessages) (hq : q.ProperMessages) :
    Told m.literal n.literal (SameLiteral p q) := by
  have hmnamed := named_of_ofPrompt hm
  have hnnamed := named_of_ofPrompt hn
  obtain ⟨rfl, hmtools, hmschema⟩ := ofPrompt_eq_ok hm
  obtain ⟨rfl, hntools, hnschema⟩ := ofPrompt_eq_ok hn
  -- from the last members to the first, each followed by what has been told of the rest
  have hrest := told_optionalMembers hmnamed hnnamed hp hq
  have hsystem : Told (line ("systemPrompt: " ++ Script.quote m.prompt.system ++ ",") ++ _)
      (line ("systemPrompt: " ++ Script.quote n.prompt.system ++ ",") ++ _) _ :=
    (told_member _ (toldWord_quote _ _)).append fun _ => hrest
  have htemperature : Told
      (line ("temperature: " ++ m.prompt.temperature.positional "" ++ ",") ++ _)
      (line ("temperature: " ++ n.prompt.temperature.positional "" ++ ",") ++ _) _ :=
    (told_member _ (toldWord_temperature _ _)).append fun _ => hsystem
  have hmodel := (told_member "model: "
    (toldWord_model m.prompt.model n.prompt.model)).append fun _ => htemperature
  have hversion : Told (line ("version: " ++ toString m.prompt.version ++ ",") ++ _)
      (line ("version: " ++ toString n.prompt.version ++ ",") ++ _) _ :=
    (told_member _ (toldWord_nat _ _)).append fun _ => hmodel
  have hname : Told (line ("name: " ++ Script.quote m.prompt.name ++ ",") ++ _)
      (line ("name: " ++ Script.quote n.prompt.name ++ ",") ++ _) _ :=
    (told_member _ (toldWord_quote _ _)).append fun _ => hversion
  rw [ModuleContent.literal_eq, ModuleContent.literal_eq]
  refine hname.mono fun ⟨hname, hversion, hmodel, htemperature, hsystem, hrest⟩ => ?_
  obtain ⟨hfewShot, hfinal, htools, hschema, -⟩ := hrest
  rw [hmtools, hntools] at htools
  rw [hmschema, hnschema] at hschema
  exact ⟨hname, hversion, hmodel, htemperature, hsystem, hfewShot, hfinal, htools, hschema⟩

/-! ## Modules -/

/-- The import of the library, if there are validators. -/
def libraryImport (d : Dialect) (m : ModuleContent) : String :=
  if m.fragments.isEmpty then ""
  else
    match d.style with
    | .esm => line ("import \x7b z \x7d from " ++ Script.quote d.validatorPath ++ ";")
    | .commonJs => line ("const \x7b z \x7d = require(" ++ Script.quote d.validatorPath ++ ");")

/-- The import of the types, in typed dialects. -/
def typeImport (d : Dialect) : String :=
  if d.typed then
    line ("import type \x7b " ++ promptType ++ " \x7d from " ++
      Script.quote (d.importPath typesStem) ++ ";")
  else ""

/-- How the import of the library starts. -/
def libraryHead (d : Dialect) : List Char :=
  match d.style with
  | .esm => ['i', 'm', 'p', 'o', 'r', 't', ' ', '\x7b']
  | .commonJs => ['c']

/-- How the import of the types starts. -/
def typeHead : List Char := ['i', 'm', 'p', 'o', 'r', 't', ' ', 't']

/-- The text of a module, part by part. -/
theorem ModuleContent.source_eq (d : Dialect) (m : ModuleContent) :
    m.source d = libraryImport d m ++ (typeImport d ++ (fragmentsText d m.fragments ++
      ("\n" ++ (m.opening d ++ (m.literal ++ m.closing d))))) := by
  rw [source, imports, validators, libraryImport, typeImport, fragmentsText]
  cases d.style <;> simp only [String.append_assoc]

/-- The import of the library is there if there are validators. -/
theorem optional_libraryImport (d : Dialect) (m : ModuleContent) :
    OptionalPart (libraryHead d) (m.fragments = []) (libraryImport d m) := by
  rw [libraryImport, libraryHead]
  by_cases hm : m.fragments = []
  · exact .inl ⟨hm, if_pos (List.isEmpty_iff.mpr hm)⟩
  · rw [if_neg (by rwa [List.isEmpty_iff])]
    refine .inr ⟨hm, ?_⟩
    cases d.style with
    | esm => exact (((Starts.given (by decide)).append _).append _).append _
    | commonJs => exact (((Starts.given (by decide)).append _).append _).append _

/-- The import of the library is the same for all modules that have one. -/
theorem libraryImport_eq (hm : m.fragments ≠ []) (hn : n.fragments ≠ []) :
    libraryImport d m = libraryImport d n := by
  rw [libraryImport, libraryImport, if_neg (by rwa [List.isEmpty_iff]),
    if_neg (by rwa [List.isEmpty_iff])]

/-- The import of the types is there in typed dialects. -/
theorem optional_typeImport (d : Dialect) :
    OptionalPart typeHead (d.typed = false) (typeImport d) := by
  rw [typeImport]
  cases ht : d.typed with
  | false => exact .inl ⟨rfl, rfl⟩
  | true =>
    exact .inr ⟨by decide, (((((Starts.given (by decide)).append _).append _).append _).append
      _).append _⟩

/-- Validators and the prompt object stand behind a blank line. -/
theorem startsIn_fragmentsText (fs : List Fragment) (t : String) :
    StartsIn [['\n']] (fragmentsText d fs ++ ("\n" ++ t)) := by
  refine ⟨_, List.mem_cons_self, ?_⟩
  cases fs with
  | nil =>
    rw [fragmentsText, List.map_nil, List.foldr_nil, String.empty_append]
    exact (Starts.given (by decide)).append _
  | cons f fs =>
    rw [fragmentsText_cons]
    exact (Starts.given (by decide)).append _

/-- Nothing is lost in the prompt object: prompts with the same module text agree in all that it
holds, whatever their schemas make of the validators in front of it. -/
theorem sameLiteral_of_contents_eq {p q : Prompt} (d : Dialect) (hp : p.ProperMessages)
    (hq : q.ProperMessages) (hm : ModuleContent.ofPrompt p = .ok m)
    (hn : ModuleContent.ofPrompt q = .ok n) (h : (m.file d).contents = (n.file d).contents) :
    SameLiteral p q := by
  have hmnamed := named_of_ofPrompt hm
  have hnnamed := named_of_ofPrompt hn
  have hobject := (told_opening (d := d) hmnamed hnnamed).append fun _ => told_literal hm hn hp hq
  have hvalidators := told_validators hmnamed.binding hnnamed.binding hobject
    hmnamed.fragments hnnamed.fragments
  have htypes := hvalidators.after (typeImport d)
  have hstart := fun m : ModuleContent => StartsIn.optional (optional_typeImport d)
    (startsIn_fragmentsText (d := d) m.fragments (m.opening d ++ m.literal))
  -- neither of the heads is the start of the other one, so the two imports can be told apart
  have hheads : ∀ cs ∈ [typeHead, ['\n']], ¬libraryHead d <+: cs ∧ ¬cs <+: libraryHead d := by
    rw [libraryHead]
    cases d.style <;> decide
  have hlibrary := Told.optional hheads (optional_libraryImport d m) (optional_libraryImport d n)
    (fun _ _ => trivial) (fun hm hn => libraryImport_eq (d := d) hm hn ▸ Told.same _)
    (hstart m) (hstart n) htypes
  have hsource : m.source d = n.source d := h
  rw [ModuleContent.source_eq, ModuleContent.source_eq] at hsource
  simp only [← String.append_assoc] at hsource hlibrary
  exact (hlibrary _ _ hsource).1.2.2

/-- A prompt with a comment in its validators that looks like a prompt object, with numbers in its
messages, and with a schema that has a title. -/
def lookalike (title : String) : Prompt where
  name := "lookalike"
  model := some "undefined"
  system := "\x7d;\n"
  fewShot := [.tool "1" "look up" (.array [.number (.integer 1), .number (.float .zero)]) false]
  tools := [⟨"look up", "", ⟨.object [("type", .string "*/ \nexport const x = \x7bname: \"")]⟩⟩]
  schema := some ⟨.object [("type", .string "string"), ("title", .string title)]⟩

/-- The numbers in its messages are proper. -/
theorem properMessages_lookalike (title : String) : (lookalike title).ProperMessages := by
  have hzero : Binary64.Representable 0 Binary64.minExponent :=
    ⟨by decide, .inr rfl, by decide, by decide⟩
  refine ⟨fun x hx => ?_, fun x hx => by cases hx⟩
  obtain rfl := List.mem_singleton.mp hx
  exact ⟨trivial, trivial, trivial, ⟨trivial, hzero, trivial⟩, trivial, trivial⟩

/-- Titles are not part of a module, so two titles make the same one. -/
theorem sameLiteral_of_contents_eq_lookalike :
    ∃ m n, ModuleContent.ofPrompt (lookalike "A") = .ok m ∧
      ModuleContent.ofPrompt (lookalike "B") = .ok n ∧
      (lookalike "A").ProperMessages ∧ (lookalike "B").ProperMessages ∧
      (m.file .deno).contents = (n.file .deno).contents ∧
      SameLiteral (lookalike "A") (lookalike "B") := by
  have hA := properMessages_lookalike "A"
  have hB := properMessages_lookalike "B"
  exact ⟨_, _, rfl, rfl, hA, hB, rfl, sameLiteral_of_contents_eq .deno hA hB rfl rfl rfl⟩

end Promptwright
