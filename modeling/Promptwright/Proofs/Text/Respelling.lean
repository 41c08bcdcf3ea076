import Promptwright.Package.Module
import Promptwright.Proofs.Text.Humps
import Promptwright.Proofs.Text.SnakeCase

/-!
# Names made from names

A text in snake case is a label too.  With spaces for its underscores it has the words that stood
between them: they are in lower case, so no hump cuts them again, and nothing else of them goes away.
So the name that a tool has in a prompt object is as good a label as the name that it was made from:
both lead to the same validator.

## Key results

- `words_append_blank`: words of a text that is cut at white space
- `humps_eq_singleton`: a word without capitals has no humps
- `ofLabel_underscoresToSpaces`: the spellings of small words with spaces between them
- `forBinding_snake`: a name in snake case leads to the same names
-/

namespace Promptwright

namespace Text

/-! ## Words and spaces -/

/-- A text has words if it starts with one. -/
theorem words_ne_nil {c : Char} (hc : isBlank c = false) (cs : List Char) :
    words (c :: cs) ≠ [] := by
  intro h
  have hflat := Identifiers.flatten_words (c :: cs)
  simp [h, hc] at hflat

/-- White space in front of a text changes no word. -/
theorem words_cons_blank {b : Char} (hb : isBlank b = true) (cs : List Char) :
    words (b :: cs) = words cs := by
  cases cs with
  | nil => simp [words, hb]
  | cons c cs => rw [words, if_pos hb]

/-- No word goes on across white space. -/
theorem words_append_blank {b : Char} (hb : isBlank b = true) (cs ds : List Char) :
    words (cs ++ b :: ds) = words cs ++ words ds := by
  induction cs using words.induct with
  | case1 => exact words_cons_blank hb ds
  | case2 c hc => simp [words, hc, words_cons_blank hb]
  | case3 c hc => simp [words, hc, hb, words_cons_blank hb]
  | case4 c d cs hc ih =>
    rw [words_cons_blank hc, List.cons_append, words_cons_blank hc, ih]
  | case5 c d cs hc hd ih =>
    rw [words, if_neg hc, if_pos hd, List.cons_append, List.cons_append, words, if_neg hc,
      if_pos hd, ← List.cons_append, ih, List.cons_append]
  | case6 c d cs hc hd ih =>
    -- the first word of the rest takes the character, so there has to be one
    obtain ⟨w, ws, hws⟩ := List.exists_cons_of_ne_nil (words_ne_nil (by simpa using hd) cs)
    rw [words, if_neg hc, if_neg hd, List.cons_append, List.cons_append, words, if_neg hc,
      if_neg hd, ← List.cons_append, ih, hws]
    rfl

/-- A text without white space is one word. -/
theorem words_eq_singleton {w : List Char} (hne : w ≠ []) (h : ∀ c ∈ w, isBlank c = false) :
    words w = [w] := by
  induction w with
  | nil => exact absurd rfl hne
  | cons c cs ih =>
    obtain ⟨hc, hcs⟩ := List.forall_mem_cons.mp h
    cases cs with
    | nil => simp [words, hc]
    | cons d cs =>
      have hd := hcs d List.mem_cons_self
      rw [words, if_neg (by simp [hc]), if_neg (by simp [hd]), ih (by simp) hcs]
      rfl

/-- Words with spaces between them are the words of the text. -/
theorem words_intercalate {ws : List (List Char)}
    (h : ∀ w ∈ ws, w ≠ [] ∧ ∀ c ∈ w, isBlank c = false) : words ([' '].intercalate ws) = ws := by
  induction ws with
  | nil => rfl
  | cons w ws ih =>
    obtain ⟨⟨hne, hw⟩, hws⟩ := List.forall_mem_cons.mp h
    cases ws with
    | nil => simpa using words_eq_singleton hne hw
    | cons v ws =>
      rw [List.intercalate_cons_cons, List.append_assoc, List.singleton_append,
        words_append_blank (by decide), words_eq_singleton hne hw, ih hws]
      rfl

end Text

namespace Identifiers

/-! ## Small words again -/

/-- A small letter or a digit is in lower case, and it is neither a capital nor white space. -/
theorem small_cases {c : Char} (h : c.isLower = true ∨ c.isDigit = true) :
    c.toLower = c ∧ c.isUpper = false ∧ Text.isBlank c = false := by
  have halphanum := (isAlphanum_of_small h).1
  refine of_isAlphanum (P := fun c => c.isLower = true ∨ c.isDigit = true →
    c.toLower = c ∧ c.isUpper = false ∧ Text.isBlank c = false) ?_ halphanum h
  decide

/-- A word without capitals is one hump. -/
theorem humps_eq_singleton {w : List Char} (hne : w ≠ []) (h : ∀ c ∈ w, c.isUpper = false) :
    humps w = [w] := by
  refine humps_eq_singleton_iff.mpr ⟨hne, fun i hi => ?_⟩
  obtain ⟨c, hc, hupper⟩ := (Option.any_eq_true _ _).mp hi.2.1
  exact absurd hupper (by simp [h c (List.mem_of_getElem? hc)])

/-- A small word is in lower case already. -/
theorem IsSmallWord.lower_eq {w : List Char} (h : IsSmallWord w) : lower w = w :=
  (List.map_congr_left fun c hc => (small_cases (h.small c hc)).1).trans (List.map_id w)

/-! ## Spaces for underscores -/

/-- A space for each underscore. -/
def underscoresToSpaces (cs : List Char) : List Char :=
  cs.map fun c => if c = '_' then ' ' else c

/-- Where there are no dashes, only underscores become spaces. -/
theorem dashesToSpaces_eq {cs : List Char} (h : '-' ∉ cs) :
    dashesToSpaces cs = underscoresToSpaces cs := by
  refine List.map_congr_left fun c hc => ?_
  have hdash : c ≠ '-' := fun e => h (e ▸ hc)
  simp [hdash]

/-- A text without underscores stays as it is. -/
theorem underscoresToSpaces_eq_self {cs : List Char} (h : '_' ∉ cs) :
    underscoresToSpaces cs = cs := by
  refine (List.map_congr_left fun c hc => ?_).trans (List.map_id cs)
  have hunderscore : c ≠ '_' := fun e => h (e ▸ hc)
  simp [hunderscore]

section Words

variable {ws : List (List Char)}

/-- The words of a text in snake case stand between spaces then. -/
theorem underscoresToSpaces_snakeOf (h : ∀ w ∈ ws, IsSmallWord w) :
    underscoresToSpaces (snakeOf ws) = [' '].intercalate ws := by
  induction ws with
  | nil => rfl
  | cons w ws ih =>
    obtain ⟨hw, hws⟩ := List.forall_mem_cons.mp h
    have hself := underscoresToSpaces_eq_self hw.underscore_not_mem
    cases ws with
    | nil => simpa [snakeOf] using hself
    | cons v ws =>
      rw [snakeOf_cons (by simp), List.intercalate_cons_cons, ← ih hws]
      simp only [underscoresToSpaces] at hself ⊢
      simp [hself]

/-- Nothing of such a text goes away. -/
theorem keep_underscoresToSpaces (h : ∀ w ∈ ws, IsSmallWord w) :
    keep (underscoresToSpaces (snakeOf ws)) = underscoresToSpaces (snakeOf ws) := by
  rw [keep, List.filter_eq_self]
  intro c hc
  obtain ⟨b, hb, rfl⟩ := List.mem_map.mp hc
  by_cases hunderscore : b = '_'
  · simp [hunderscore]
    decide
  · have hsmall := (isSnakeCase_snakeOf h).chars b hb
    rw [← or_assoc, or_iff_left hunderscore] at hsmall
    simp [hunderscore, (isAlphanum_of_small hsmall).1]

/-- Its parts between white space are the words. -/
theorem chunks_underscoresToSpaces (h : ∀ w ∈ ws, IsSmallWord w) :
    chunks (underscoresToSpaces (snakeOf ws)) = ws := by
  rw [chunks, keep_underscoresToSpaces h, underscoresToSpaces_snakeOf h]
  refine Text.words_intercalate fun w hw => ⟨(h w hw).ne_nil, fun c hc => ?_⟩
  exact (small_cases ((h w hw).small c hc)).2.2

/-- No hump cuts a small word, so these are all its words. -/
theorem words_underscoresToSpaces (h : ∀ w ∈ ws, IsSmallWord w) :
    words (underscoresToSpaces (snakeOf ws)) = ws := by
  rw [words, chunks_underscoresToSpaces h, List.map_flatMap]
  have hword : ∀ w ∈ ws, (humps w).map lower = [w] := by
    intro w hw
    have hupper : ∀ c ∈ w, c.isUpper = false := fun c hc =>
      (small_cases ((h w hw).small c hc)).2.1
    rw [humps_eq_singleton (h w hw).ne_nil hupper, List.map_singleton, (h w hw).lower_eq]
  rw [List.flatMap_congr hword, List.flatMap_singleton']

/-- The spellings of a label that has small words with spaces in between. -/
theorem ofLabel_underscoresToSpaces (h : ∀ w ∈ ws, IsSmallWord w) :
    ofLabel (String.ofList (underscoresToSpaces (snakeOf ws))) =
      { camel := String.ofList (camelOf ws)
        pascal := String.ofList (upperFirst (camelOf ws))
        snake := String.ofList (snakeOf ws)
        fileSlug := String.ofList (snakeOf ws) } := by
  have hlower : ws.map lower = ws :=
    (List.map_congr_left fun w hw => (h w hw).lower_eq).trans (List.map_id ws)
  simp only [ofLabel, String.toList_ofList, words_underscoresToSpaces h,
    chunks_underscoresToSpaces h, hlower]

end Words

/-! ## Labels in snake case -/

/-- The spelling of a label in snake case leads to the same spellings, and to itself as file slug. -/
theorem forBinding_snake (label : String) :
    forBinding (ofLabel label).snake = { ofLabel label with fileSlug := (ofLabel label).snake } := by
  have hwords : ∀ w ∈ words label.toList, IsSmallWord w := fun w hw => isSmallWord_of_mem_words hw
  have hdash : '-' ∉ snakeOf (words label.toList) := by
    intro hmem
    obtain h | h | h := (isSnakeCase_snakeOf hwords).chars _ hmem <;> revert h <;> decide
  have hsnake : (ofLabel label).snake.toList = snakeOf (words label.toList) := by
    rw [ofLabel, String.toList_ofList]
  rw [forBinding, hsnake, dashesToSpaces_eq hdash, ofLabel_underscoresToSpaces hwords]
  rfl

/-- So does the one of a label in which dashes and underscores end words too. -/
theorem forBinding_forBinding (label : String) : forBinding (forBinding label).snake =
    { forBinding label with fileSlug := (forBinding label).snake } :=
  forBinding_snake (String.ofList (dashesToSpaces label.toList))

/-- The file slug of a label, with spaces for its underscores, has itself as file slug. -/
theorem fileSlug_fileSlug (label : String) :
    (ofLabel (String.ofList (underscoresToSpaces (ofLabel label).fileSlug.toList))).fileSlug =
      (ofLabel label).fileSlug := by
  have hwords : ∀ w ∈ (chunks label.toList).map lower, IsSmallWord w :=
    fun w hw => isSmallWord_of_mem_slug hw
  have hslug : (ofLabel label).fileSlug.toList = snakeOf ((chunks label.toList).map lower) := by
    rw [ofLabel, String.toList_ofList]
  rw [hslug, ofLabel_underscoresToSpaces hwords, ← hslug, String.ofList_toList]

end Identifiers

/-! ## Tools -/

/-- A tool under the name that it has in a prompt object has the same entry. -/
theorem ToolEntry.ofTool_renamed (t : Tool) :
    ofTool { t with name := (ofTool t).name } = ofTool t := by
  simp only [ofTool, Identifiers.forBinding_forBinding]

/-- So the name of its validator is known from that name. -/
theorem ToolEntry.parameters_ofTool (t : Tool) : (ofTool t).parameters =
    (Identifiers.forBinding (ofTool t).name).camel ++ "Schema" := by
  simp only [ofTool, Identifiers.forBinding_forBinding]

/-- The name that a tool has in a prompt object determines the name of its validator.  The spelling
of a label in snake case, taken for a label itself, leads to the same spellings again, with itself as
file slug, and a file slug with spaces for its underscores leads to itself.  So a tool that goes by
the name in its entry has the same entry, and tools with the same name have the same validator. -/
theorem snake_determines_binding :
    (∀ label : String, Identifiers.forBinding (Identifiers.ofLabel label).snake =
      { Identifiers.ofLabel label with fileSlug := (Identifiers.ofLabel label).snake }) ∧
    (∀ label : String, (Identifiers.ofLabel (String.ofList (Identifiers.underscoresToSpaces
      (Identifiers.ofLabel label).fileSlug.toList))).fileSlug =
        (Identifiers.ofLabel label).fileSlug) ∧
    (∀ t : Tool, ToolEntry.ofTool { t with name := (ToolEntry.ofTool t).name } =
      ToolEntry.ofTool t) ∧
    ∀ t t' : Tool, (ToolEntry.ofTool t).name = (ToolEntry.ofTool t').name →
      (ToolEntry.ofTool t).parameters = (ToolEntry.ofTool t').parameters := by
  refine ⟨Identifiers.forBinding_snake, Identifiers.fileSlug_fileSlug, ToolEntry.ofTool_renamed, ?_⟩
  -- both entries come from the name that they share
  intro t t' h
  rw [ToolEntry.parameters_ofTool, ToolEntry.parameters_ofTool, h]

/-- A tool whose name has humps. -/
def humpedTool : Tool := ⟨"lookUpHTTPServer2", "Finds a server", ⟨.object []⟩⟩

/-- A tool whose name has a dash, a space and an underscore where the other one has humps. -/
def dashedTool : Tool := ⟨"Look-up  http_server2", "Finds a host", ⟨.bool true⟩⟩

/-- These two have one name, and so one validator. -/
theorem snake_determines_binding_lookUp :
    ((ToolEntry.ofTool humpedTool).name = "look_up_http_server2" ∧
      (ToolEntry.ofTool dashedTool).name = "look_up_http_server2") ∧
    (ToolEntry.ofTool humpedTool).parameters = (ToolEntry.ofTool dashedTool).parameters ∧
    (ToolEntry.ofTool dashedTool).parameters = "lookUpHttpServer2Schema" := by
  have hhumped : (ToolEntry.ofTool humpedTool).name = "look_up_http_server2" := by rfl
  have hdashed : (ToolEntry.ofTool dashedTool).name = "look_up_http_server2" := by rfl
  have hname := hhumped.trans hdashed.symm
  exact ⟨⟨hhumped, hdashed⟩, snake_determines_binding.2.2.2 _ _ hname, by rfl⟩

end Promptwright
