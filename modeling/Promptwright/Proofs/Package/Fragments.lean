import Promptwright.Cli.Run
import Promptwright.Proofs.Package.Compile
import Promptwright.Proofs.Package.Schedule
import Promptwright.Proofs.Script.Piecewise

/-!
# Validators inside of modules

A module holds its validators between blank lines, each behind a statement that is finished.  So a
validator is formatted there as it is on its own, which is how it is printed for a schema file.

## Key results

- `finished_imports`, `finished_fragment`: what stands in front of a blank line in a module
- `ModuleContent.exists_format_around`: a module is formatted around a validator
- `formatted_in_pieces`: scripts are formatted piece by piece, and so are modules
- `blank_line_lost`: a comment that ends in an opening bracket swallows the blank line behind it
-/

namespace Promptwright

open Script (BlankLines EndsIn Lexeme Piece StartsInText endsInOpener)

/-! ## Statements -/

/-- A text that ends with a statement on a line of its own. -/
def Finished (t : String) : Prop := ∃ front, t.toList = front ++ [';', '\n']

namespace Finished

variable {t : String}

/-- A statement on a line. -/
theorem line (s : String) {t : String} (h : t.toList.getLast? = some ';') :
    Finished (Promptwright.line (s ++ t)) := by
  obtain ⟨front, ht⟩ := List.getLast?_eq_some_iff.mp h
  exact ⟨s.toList ++ front, by simp [Promptwright.line, ht]⟩

/-- A text in front does not matter. -/
theorem append (t : String) {u : String} (h : Finished u) : Finished (t ++ u) := by
  obtain ⟨front, hu⟩ := h
  exact ⟨t.toList ++ front, by rw [String.toList_append, hu, List.append_assoc]⟩

/-- A finished text ends in a line that does not end in an opening bracket. -/
theorem exists_endsIn (h : Finished t) :
    ∃ line, EndsIn t.toList line ∧ endsInOpener line = false := by
  obtain ⟨front, ht⟩ := h
  have hblank : Text.isBlank ';' = false := by decide
  obtain ⟨line, hline⟩ := Script.exists_endsIn front hblank
  exact ⟨line ++ [';'], ht ▸ hline, by rw [Script.endsInOpener_append hblank]; rfl⟩

end Finished

/-- A text whose first line is not blank, whatever comes behind it. -/
def Opens (t : String) : Prop := ∃ c cs, t.toList = c :: cs ∧ Text.isBlank c = false

namespace Opens

variable {t : String}

/-- A keyword opens a line. -/
theorem export_const : Opens "export const " :=
  ⟨'e', ['x', 'p', 'o', 'r', 't', ' ', 'c', 'o', 'n', 's', 't', ' '], by decide, by decide⟩

/-- A keyword opens a line. -/
theorem const : Opens "const " := ⟨'c', ['o', 'n', 's', 't', ' '], by decide, by decide⟩

/-- A text behind does not matter. -/
theorem append (h : Opens t) (u : String) : Opens (t ++ u) := by
  obtain ⟨c, cs, ht, hc⟩ := h
  exact ⟨c, cs ++ u.toList, by rw [String.toList_append, ht, List.cons_append], hc⟩

/-- The first line is not blank. -/
theorem startsInText (h : Opens t) : StartsInText t.toList := by
  obtain ⟨c, cs, ht, hc⟩ := h
  rw [ht]
  exact Script.startsInText_cons hc cs

end Opens

/-! ## The parts of a module -/

/-- The statements of a validator are finished. -/
theorem finished_fragment (d : Dialect) (f : Fragment) : Finished (f.source d) := by
  rw [Fragment.source]
  cases d.typed with
  | true => exact .append _ (.line _ (by decide))
  | false =>
    cases d.style with
    | esm => exact .line _ (by decide)
    | commonJs => exact .append _ (.line _ (by decide))

/-- The statements of a validator start with a line that is not blank. -/
theorem opens_fragment (d : Dialect) (f : Fragment) : Opens (f.source d) := by
  have hbound : ∀ start, Opens start →
      Opens (line (start ++ f.binding ++ " = " ++ f.validator.source ++ ";")) :=
    fun start h => ((((h.append _).append _).append _).append _).append _
  rw [Fragment.source]
  cases d.style with
  | esm =>
    cases d.typed with
    | true => exact (hbound _ .export_const).append _
    | false => exact hbound _ .export_const
  | commonJs =>
    cases d.typed with
    | true => exact ((hbound _ .const).append _).append _
    | false => exact (hbound _ .const).append _

namespace ModuleContent

variable {m : ModuleContent}

/-- The imports of a module with validators are finished. -/
theorem finished_imports (d : Dialect) (h : m.fragments ≠ []) : Finished (m.imports d) := by
  have hnone : m.fragments.isEmpty = false := List.isEmpty_eq_false_iff.mpr h
  rw [imports, hnone]
  cases d.typed with
  | true => exact .append _ (.line _ (by decide))
  | false =>
    simp only [if_false, Bool.false_eq_true, String.append_empty]
    cases d.style with
    | esm => exact .line _ (by decide)
    | commonJs => exact .line _ (by decide)

/-- Some validators, each after a blank line. -/
def spacedOut (d : Dialect) (fs : List Fragment) : String :=
  (fs.map fun f => "\n" ++ f.source d).foldr (· ++ ·) ""

/-- Behind a finished text, validators are finished. -/
theorem finished_append_spacedOut (d : Dialect) {t : String} (h : Finished t) (fs : List Fragment) :
    Finished (t ++ spacedOut d fs) := by
  induction fs generalizing t with
  | nil => rwa [spacedOut, List.map_nil, List.foldr_nil, String.append_empty]
  | cons f fs ih =>
    have h := ih (t := t ++ ("\n" ++ f.source d)) (.append _ (.append _ (finished_fragment d f)))
    rwa [String.append_assoc] at h

/-- What stands behind the validators of a module. -/
def ending (d : Dialect) (m : ModuleContent) : String := m.opening d ++ m.literal ++ m.closing d

/-- The prompt object starts with a line that is not blank. -/
theorem opens_ending (d : Dialect) (m : ModuleContent) : Opens (m.ending d) := by
  have hopening : ∀ start, Opens start → ∀ annotation,
      Opens (line (start ++ m.binding ++ annotation ++ " = \x7b")) :=
    fun start h _ => (((h.append _).append _).append _).append _
  rw [ending, opening]
  cases d.style with
  | esm => exact ((hopening _ .export_const _).append _).append _
  | commonJs => exact ((hopening _ .const _).append _).append _

/-- Behind a validator, there is a blank line and then one that is not blank. -/
theorem exists_behind (d : Dialect) (m : ModuleContent) (fs : List Fragment) :
    ∃ rest, spacedOut d fs ++ ("\n" ++ m.ending d) = "\n" ++ rest ∧ StartsInText rest.toList := by
  cases fs with
  | nil => exact ⟨m.ending d, String.empty_append, (opens_ending d m).startsInText⟩
  | cons f fs =>
    refine ⟨f.source d ++ (spacedOut d fs ++ ("\n" ++ m.ending d)), ?_,
      ((opens_fragment d f).append _).startsInText⟩
    simp only [spacedOut, List.map_cons, List.foldr_cons, String.append_assoc]

/-- The text of a module around a validator. -/
theorem source_eq_around {before after : List Fragment} {f : Fragment}
    (h : m.fragments = before ++ f :: after) (d : Dialect) :
    m.source d = (m.imports d ++ spacedOut d before) ++
      ("\n" ++ (f.source d ++ (spacedOut d after ++ ("\n" ++ m.ending d)))) := by
  have hvalidators : m.validators d =
      spacedOut d before ++ ("\n" ++ (f.source d ++ spacedOut d after)) := by
    -- the validators are lined up with blank lines in front, which does not depend on where they
    -- stop
    have happend : ∀ fs gs, spacedOut d (fs ++ gs) = spacedOut d fs ++ spacedOut d gs := by
      intro fs gs
      induction fs with
      | nil => exact String.empty_append.symm
      | cons g fs ih =>
        show ("\n" ++ g.source d) ++ spacedOut d (fs ++ gs) =
          ("\n" ++ g.source d) ++ spacedOut d fs ++ spacedOut d gs
        rw [ih]
        simp only [String.append_assoc]
    have hcons : spacedOut d (f :: after) = ("\n" ++ f.source d) ++ spacedOut d after := rfl
    have hspaced : m.validators d = spacedOut d m.fragments := rfl
    rw [hspaced, h, happend, hcons, String.append_assoc]
  rw [source, hvalidators, ending]
  simp only [String.append_assoc]

/-- A module is formatted around a validator as if that stood alone. -/
theorem exists_format_around {p : Prompt} (hm : ofPrompt p = .ok m) {f : Fragment}
    (hf : f ∈ m.fragments) (d : Dialect) (width : Nat) :
    ∃ before printed after, Script.format width (f.source d) = .ok printed ∧
      Script.format width (m.source d) =
        .ok (before ++ ("\n" ++ (printed ++ ("\n" ++ after)))) := by
  have hnamed := named_of_ofPrompt hm
  obtain ⟨front, back, hsplit⟩ := List.append_of_mem hf
  have hne : m.fragments ≠ [] := List.ne_nil_of_mem hf
  have hblank : BlankLines "\n".toList := ⟨rfl, List.forall_mem_singleton.mpr rfl⟩
  -- what stands in front of the validator
  have hpiece : Piece Lexeme.isPlain [] [] (m.imports d ++ spacedOut d front) := by
    refine (piece_imports d m).beside (.foldr fun t ht => ?_)
    obtain ⟨g, hg, rfl⟩ := List.mem_map.mp ht
    have hmem : g ∈ m.fragments := hsplit ▸ List.mem_append_left _ hg
    exact .beside (.code (by decide)) (piece_fragment d (hnamed.fragments g hmem))
  obtain ⟨before, hbefore⟩ := hpiece.exists_format_eq_ok width
  obtain ⟨line, hline, hopener⟩ :=
    (finished_append_spacedOut d (finished_imports d hne) front).exists_endsIn
  -- the validator
  obtain ⟨printed, hprinted⟩ :=
    (piece_fragment d (hnamed.fragments f hf)).exists_format_eq_ok width
  obtain ⟨line', hline', hopener'⟩ := (finished_fragment d f).exists_endsIn
  -- what stands behind it
  obtain ⟨rest, hrest, hstart⟩ := exists_behind d m back
  obtain ⟨target, htarget⟩ := (piece_source d hnamed).exists_format_eq_ok width
  rw [source_eq_around hsplit, hrest] at htarget ⊢
  have hwhole := Script.agree_format_append_blank hbefore hline hblank
    (((opens_fragment d f).append ("\n" ++ rest)).startsInText)
  have hpart := Script.agree_format_append_blank hprinted hline' hblank hstart
  rw [hopener] at hwhole
  rw [hopener'] at hpart
  obtain ⟨behind, hbehind, htarget'⟩ := (hwhole.flip fun _ _ => id).exists_eq_ok htarget
  obtain ⟨after, -, hafter⟩ := (hpart.flip fun _ _ => id).exists_eq_ok hbehind
  refine ⟨before, printed, after, hprinted, ?_⟩
  rw [htarget, htarget', hafter]
  rfl

end ModuleContent

/-! ## Pieces -/

/-- The dialects that everyone knows write scripts. -/
theorem extension_mem_of_builtin {language : String} {d : Dialect}
    (h : Dialects.builtin.get? language = some d) : d.extension ∈ Gate.scriptExtensions := by
  obtain ⟨pre, post, hsplit, -⟩ := List.lookup_eq_some_iff.mp h
  have hall : ∀ e ∈ Dialects.builtin.entries, e.2.extension ∈ Gate.scriptExtensions := by decide
  exact hall (language, d) (hsplit ▸ List.mem_append_right _ List.mem_cons_self)

/-- Formatting works piece by piece.  A script right behind another one that is accepted is accepted
if it is on its own, and both are written as they are on their own.  With blank lines in between one
blank line is kept, unless the line in front of them ends, but for white space, in an opening
bracket.  So the validator that is printed for the schema in a file is part of the module of a
prompt with the same schema under the same name. -/
theorem formatted_in_pieces :
    (∀ width a ta, Script.format width a = .ok ta → (a = "" ∨ ∃ line, EndsIn a.toList line) →
      ∀ b, StartsInText b.toList →
        Agree (fun tb t => t = ta ++ tb) (Script.format width b) (Script.format width (a ++ b))) ∧
    (∀ width a ta line, Script.format width a = .ok ta → EndsIn a.toList line →
      ∀ blanks b, BlankLines blanks.toList → StartsInText b.toList →
        Agree (fun tb t => t = ta ++ ((if endsInOpener line then "" else "\n") ++ tb))
          (Script.format width b) (Script.format width (a ++ (blanks ++ b)))) ∧
    ∀ language d p m f files file s, Dialects.builtin.get? language = some d →
      ModuleContent.ofPrompt p = .ok m → f ∈ m.fragments → Schema.loadFile files file = .ok s →
      Fragment.ofSchema f.binding s = .ok f →
        ∃ out before printed after, Gate.standard.formatFile (m.file d) = .ok out ∧
          Cli.runCommand files (.schemaCheck file language (some f.binding)) =
            .success files printed ∧
          out.contents = before ++ ("\n" ++ (printed ++ ("\n" ++ after))) := by
  refine ⟨fun width a ta ha hend b => Script.agree_format_append ha hend,
    fun width a ta line ha hend blanks b => Script.agree_format_append_blank ha hend, ?_⟩
  intro language d p m f files file s hd hm hf hs hgenerated
  obtain ⟨before, printed, after, hprinted, hsource⟩ :=
    ModuleContent.exists_format_around hm hf d Gate.defaultWidth
  -- a built-in dialect has the extension of a formatter, and the module can be formatted
  obtain ⟨out, hout⟩ := Gate.exists_formatFile_eq_ok (extension_mem_of_builtin hd) rfl
    (exists_format_file_eq_ok d hm)
  refine ⟨out, before, printed, after, hout, ?_, ?_⟩
  · simp only [Cli.runCommand, Cli.schemaCheck, hd, hs, Option.getD_some, hgenerated, hprinted]
  · obtain ⟨g, hg, hcontents, -⟩ := Gate.formatFile_eq_ok hout
    obtain rfl := Gate.eq_format_of_get?_standard hg
    exact Except.ok.inj (hcontents.symm.trans hsource)

/-- A blank line behind a comment that ends in an opening bracket is lost although there is white
space between the two. -/
theorem blank_line_lost :
    EndsIn "// \x7b  \n".toList "// \x7b  ".toList ∧
    (∀ c ∈ "// \x7b  ".toList.getLast?, Script.Bracket.ofOpening? c = none) ∧
    BlankLines "\n".toList ∧ StartsInText "x\n".toList ∧
    Script.format 2 "// \x7b  \n" = .ok "// \x7b\n" ∧ Script.format 2 "x\n" = .ok "x\n" ∧
    Script.format 2 ("// \x7b  \n" ++ ("\n" ++ "x\n")) ≠ .ok ("// \x7b\n" ++ ("\n" ++ "x\n")) := by
  refine ⟨⟨rfl, rfl, by decide⟩, ?_, ⟨rfl, List.forall_mem_singleton.mpr rfl⟩,
    ⟨['x'], by decide, by decide⟩, rfl, rfl, ?_⟩
  · intro c hc
    obtain rfl : ' ' = c := Option.some.inj hc
    rfl
  have hlost : Script.format 2 ("// \x7b  \n" ++ ("\n" ++ "x\n")) = .ok "// \x7b\nx\n" := rfl
  rw [hlost]
  decide

/-- A prompt with a tool whose parameters may be anything. -/
def openMinded : Prompt where
  name := "open minded"
  system := ""
  tools := [⟨"do", "Whatever.", ⟨.object []⟩⟩]

/-- A directory with a schema for anything. -/
def anythingFiles : FileTree := ⟨[(["any.json"], .file "\x7b\x7d".toUTF8)], []⟩

/-- Whether a schema is an object without members. -/
def isEmptySchema : Except LoadError Schema → Bool
  | .ok ⟨.object []⟩ => true
  | _ => false

/-- The schema in the directory. -/
theorem loadFile_anything :
    Schema.loadFile anythingFiles "any.json" = .ok ⟨.object []⟩ := by
  have hread : isEmptySchema (Schema.loadFile anythingFiles "any.json") = true := by
    decide +kernel
  unfold isEmptySchema at hread
  split at hread
  · next heq => exact heq
  · cases hread

/-- Calls and comments in pieces, and the validator of a tool. -/
theorem formatted_in_pieces_openMinded :
    Script.format 2 ("f(\n'a')\n" ++ "g([\n1])") = .ok ("f(\n  \"a\")\n" ++ "g([\n  1])\n") ∧
    Script.format 2 ("f(\n'a')\n" ++ ("\n \n" ++ "g([\n1])")) =
      .ok ("f(\n  \"a\")\n" ++ ("\n" ++ "g([\n  1])\n")) ∧
    ∃ m out before printed after, ModuleContent.ofPrompt openMinded = .ok m ∧
      Gate.standard.formatFile (m.file .deno) = .ok out ∧
      Cli.runCommand anythingFiles (.schemaCheck "any.json" "deno" (some "doSchema")) =
        .success anythingFiles printed ∧
      out.contents = before ++ ("\n" ++ (printed ++ ("\n" ++ after))) := by
  have hcall : Script.format 2 "f(\n'a')\n" = .ok "f(\n  \"a\")\n" := rfl
  have hlist : Script.format 2 "g([\n1])" = .ok "g([\n  1])\n" := rfl
  have hend : EndsIn "f(\n'a')\n".toList "'a')".toList := ⟨by decide, by decide, by decide⟩
  have hstart : StartsInText "g([\n1])".toList := ⟨['g', '(', '['], by decide, by decide⟩
  obtain ⟨happend, hblank, hmodule⟩ := formatted_in_pieces
  refine ⟨?_, ?_, ?_⟩
  · obtain ⟨t, ht, rfl⟩ := (happend 2 _ _ hcall (.inr ⟨_, hend⟩) _ hstart).exists_eq_ok hlist
    exact ht
  · obtain ⟨t, ht, rfl⟩ := (hblank 2 _ _ _ hcall hend "\n \n" _ ⟨rfl, List.all_eq_true.mp rfl⟩
      hstart).exists_eq_ok hlist
    exact ht
  · obtain ⟨out, before, printed, after, hout, hprinted, hcontents⟩ := hmodule "deno" .deno
      openMinded _ _ anythingFiles "any.json" _ rfl rfl List.mem_cons_self loadFile_anything rfl
    exact ⟨_, out, before, printed, after, rfl, hout, hprinted, hcontents⟩

end Promptwright
