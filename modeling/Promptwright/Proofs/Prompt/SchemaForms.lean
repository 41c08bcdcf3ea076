import Promptwright.Proofs.Document.Variants
import Promptwright.Proofs.Prompt.CheckForms
import Promptwright.Proofs.Prompt.Valid
import Promptwright.Proofs.Prompt.WrittenChecks
import Promptwright.Proofs.Text.Labels

/-!
# The three forms of values

A schema is given by itself, or as a text that holds it as JSON, or as a reference to a file with
such a text.  So is the value that a check expects.  The three forms mean the same value, and a check
that gives its value in one form is the check that gives it in another.

## Key results

- `Json.HeldBy`: texts that hold a value, with white space around it
- `Origin.Gives`: the three forms
- `resolveJson_of_gives`, `resolveSchema_of_gives`: what the forms mean
- `resolveChecks_eq_of_same`: checks with values in different forms
-/

namespace Promptwright

open Json (Members)

/-! ## Texts that hold a value -/

namespace Text

/-- A text without white space at its ends is left as it is. -/
theorem trim_eq_self {s : List Char} (hhead : ∀ c, s.head? = some c → isBlank c = false)
    (hlast : ∀ c, s.getLast? = some c → isBlank c = false) : trim s = s := by
  rw [trim, trimStart, dropWhile_eq_self_of_head hhead, trimEnd_eq_self hlast]

/-- White space around a text is trimmed. -/
theorem trim_padded {pre post : List Char} (hpre : ∀ c ∈ pre, isBlank c = true)
    (hpost : ∀ c ∈ post, isBlank c = true) (s : List Char) : trim (pre ++ s ++ post) = trim s := by
  rw [trim_append_blank _ hpost, trim, trim, trimStart, trimStart,
    List.dropWhile_append_of_pos hpre]

/-- Characters of words are no white space. -/
theorem isBlank_of_isWord {c : Char} (h : Script.isWord c = true) : isBlank c = false := by
  simp only [Script.isWord, Bool.or_eq_true, beq_iff_eq] at h
  obtain ((h | rfl) | rfl) | rfl := h
  · exact (Identifiers.isAlphanum_cases h).1
  · decide
  · decide
  · decide

/-- A text between two characters that are no white space is left as it is. -/
theorem trim_between {first last : Char} (hfirst : isBlank first = false)
    (hlast : isBlank last = false) (s : List Char) :
    trim (first :: s ++ [last]) = first :: s ++ [last] := by
  apply trim_eq_self
  · intro c hc
    obtain rfl : first = c := by simpa using hc
    exact hfirst
  · intro c hc
    rw [List.getLast?_concat] at hc
    exact Option.some.inj hc ▸ hlast

end Text

namespace Json

/-- A text holds a value if it is a JSON text of this value, with any white space around it. -/
def HeldBy (j : Json) (text : String) : Prop :=
  ∃ before t after : String, text = before ++ t ++ after ∧
    (∀ c ∈ before.toList, Text.isBlank c = true) ∧ (∀ c ∈ after.toList, Text.isBlank c = true) ∧
    Text.trim t.toList = t.toList ∧ ofText? t = some j

/-- The value that a text holds is read from it. -/
theorem HeldBy.ofPaddedText? {j : Json} {text : String} (h : j.HeldBy text) :
    ofPaddedText? text = some j := by
  obtain ⟨before, t, after, rfl, hbefore, hafter, htrim, ht⟩ := h
  rw [Json.ofPaddedText?, String.toList_append, String.toList_append,
    Text.trim_padded hbefore hafter, htrim, String.ofList_toList]
  exact ht

/-- A value is written without white space at its ends. -/
theorem trim_compact (j : Json) : Text.trim j.compact.toList = j.compact.toList := by
  cases j with
  -- by the first and the last character, neither of which is white space
  | null => decide
  | bool b => cases b <;> decide
  | number n =>
    have hword := Script.wordText_number n
    apply Text.trim_eq_self
    · exact fun c hc => Text.isBlank_of_isWord (hword c (List.mem_of_head? hc))
    · exact fun c hc => Text.isBlank_of_isWord (hword c (List.mem_of_getLast? hc))
  | string s =>
    have hquoted : (Json.string s).compact.toList = '"' :: s.toList.flatMap escapeChar ++ ['"'] := by
      simp [compact, quoted]
    rw [hquoted]
    exact Text.trim_between (by decide) (by decide) _
  | array items =>
    have hbrackets : (Json.array items).compact.toList =
        '[' :: (compactItems items).toList ++ [']'] := by
      simp [compact]
    rw [hbrackets]
    exact Text.trim_between (by decide) (by decide) _
  | object members =>
    have hbraces : (Json.object members).compact.toList =
        '\x7b' :: (compactMembers members).toList ++ ['\x7d'] := by
      simp [compact]
    rw [hbraces]
    exact Text.trim_between (by decide) (by decide) _

/-- The text that is written for a value holds it, if it can be read back. -/
theorem heldBy_compact {j : Json} (h : ofText? j.compact = some j) {before after : String}
    (hbefore : ∀ c ∈ before.toList, Text.isBlank c = true)
    (hafter : ∀ c ∈ after.toList, Text.isBlank c = true) :
    j.HeldBy (before ++ j.compact ++ after) :=
  ⟨before, j.compact, after, rfl, hbefore, hafter, trim_compact j, h⟩

end Json

/-! ## The forms -/

/-- A value that stands for itself: no text, and no reference to a file. -/
structure Json.Plain (j : Json) : Prop where
  notText : ∀ text, j ≠ .string text
  notReference : j.reference? = none

namespace Origin

/-- A document gives a value by itself, or as a text that holds it, or as a reference to a file next to
the document that holds it. -/
inductive Gives (o : Origin) (value : Json) : Json → Prop
  | itself : Gives o value value
  | text {text : String} (h : value.HeldBy text) : Gives o value (.string text)
  | file {key name text : String} (hkey : key = "$ref" ∨ key = "path")
      (hname : ['.', 'j', 's', 'o', 'n'] <:+ name.toList)
      (hfile : o.files.readText (Path.join o.directory name) = .ok text)
      (h : value.HeldBy text) : Gives o value (.object [(key, .string name)])

variable {o : Origin} {value j : Json}

/-- The three forms mean the value. -/
theorem resolveJson_of_gives (hvalue : value.Plain) (h : o.Gives value j) :
    o.resolveJson j = .ok value := by
  cases h with
  | itself =>
    obtain ⟨hnotText, hnotReference⟩ := hvalue
    unfold resolveJson
    rw [hnotReference]
    dsimp only
    split
    · exact absurd rfl (hnotText _)
    · rfl
  | text h => exact resolveJson_text h.ofPaddedText?
  | @file key name text hkey hname hfile h =>
    -- the file is named in an object with one member, and holds the value
    have hreference : (Json.object [(key, .string name)]).reference? = some name := if_pos hkey
    have hjson : ['.', 'j', 's', 'o', 'n'].isSuffixOf name.toList = true :=
      List.isSuffixOf_iff_suffix.mpr hname
    simp only [resolveJson, hreference, readReference, hjson, hfile, h.ofPaddedText?,
      Bool.not_true, Bool.false_eq_true, if_false]

/-- A schema with a type stands for itself. -/
theorem plain_of_typed (h : (Schema.mk value).Typed) : value.Plain := by
  obtain ⟨ms, type, rfl, htype⟩ := h
  refine ⟨nofun, ?_⟩
  unfold Json.reference?
  split
  · next key file heq =>
    cases heq
    -- the only key is `type`, and so it is none of those of references
    have hkey : key = "type" := by
      by_contra hne
      rw [Members.lookup, List.lookup_cons, beq_false_of_ne (Ne.symm hne)] at htype
      cases htype
    rw [if_neg (by rw [hkey]; decide)]
  · rfl

/-- The three forms mean the schema. -/
theorem resolveSchema_of_gives (hvalue : (Schema.mk value).Typed) (h : o.Gives value j)
    (place : SchemaPlace) : o.resolveSchema place j = .ok ⟨value⟩ := by
  have htyped : (Schema.mk value).isTyped = true := by
    obtain ⟨ms, type, rfl, htype⟩ := hvalue
    exact Option.isSome_iff_exists.mpr ⟨type, htype⟩
  rw [resolveSchema, resolveJson_of_gives (plain_of_typed hvalue) h]
  exact if_pos htyped

/-! ## Checks -/

/-- Two values that a document gives, in whatever form, for the same expected value of a check. -/
def SameResult (o : Origin) (j j' : Json) : Prop :=
  ∃ value : Json, value.Plain ∧ value.WellFormed ∧ o.Gives value j ∧ o.Gives value j'

/-- Two members of checks that are equal, or give the same expected value. -/
def SameOption (o : Origin) (m m' : String × Json) : Prop :=
  m.1 = m'.1 ∧ (m.2 = m'.2 ∨ m.1 = "result" ∧ o.SameResult m.2 m'.2)

/-- Two items of lists of checks that are equal, or are checks for the same value. -/
def SameItem (o : Origin) (j j' : Json) : Prop :=
  j = j' ∨ ∃ ms ms', j = .object ms ∧ j' = .object ms' ∧
    Members.lookup ms "id" = some (.string "structured_output") ∧
    List.Forall₂ o.SameOption ms ms'

/-- Two ids with options that are equal, or belong to checks for the same value. -/
def SameNamed (o : Origin) (m m' : String × Json) : Prop :=
  m = m' ∨ ∃ ms ms', m = ("structured_output", .object ms) ∧
    m' = ("structured_output", .object ms') ∧ List.Forall₂ o.SameOption ms ms'

/-- Two values that list the same checks, which may give the values they expect in different forms. -/
inductive SameChecks (o : Origin) : Json → Json → Prop
  | list {items items' : List Json} (h : List.Forall₂ o.SameItem items items') :
      SameChecks o (.array items) (.array items')
  | map {ms ms' : Members} (h : List.Forall₂ o.SameNamed ms ms') :
      SameChecks o (.object ms) (.object ms')

variable {j' : Json} {ms ms' options options' : Members}

/-- Documents can hold all forms of a value that they can hold. -/
theorem Gives.wellFormed (hvalue : value.WellFormed) (h : o.Gives value j) : j.WellFormed := by
  cases h with
  | itself => exact hvalue
  | text => trivial
  | file => exact ⟨List.nodup_singleton _, trivial, trivial⟩

/-- Members for all keys but that of the expected value are equal. -/
theorem lookup_eq_of_sameOption (h : List.Forall₂ o.SameOption ms ms') {key : String}
    (hkey : key ≠ "result") : Members.lookup ms key = Members.lookup ms' key := by
  induction h with
  | nil => rfl
  | @cons m m' ms ms' hm _ ih =>
    obtain ⟨k, v⟩ := m
    obtain ⟨k', v'⟩ := m'
    obtain ⟨rfl, hv⟩ := hm
    rw [Members.lookup, Members.lookup] at ih ⊢
    rw [List.lookup_cons, List.lookup_cons, ih]
    obtain rfl | ⟨hresult, -⟩ := hv
    · rfl
    · -- another key is looked up
      have hne : (key == k) = false := by
        rw [beq_eq_false_iff_ne]
        exact fun heq => hkey (heq.trans hresult)
      rw [hne]

/-- Two values that documents may hold for the same one. -/
def MeanSame (o : Origin) (j j' : Json) : Prop := o.resolveJson j = o.resolveJson j'

/-- Two parts of documents with values that mean the same. -/
def ReadSame (o : Origin) (n n' : Node) : Prop := Both Eq o.MeanSame n.json n'.json

/-- The trees of two forms of an expected value. -/
theorem SameResult.readSame (h : o.SameResult j j') :
    o.ReadSame (Node.ofJson j) (Node.ofJson j') := by
  obtain ⟨value, hplain, hwf, hgives, hgives'⟩ := h
  have hread := Node.json_of_spelled j (hgives.wellFormed hwf) _ (Json.spelled_ofJson j)
  have hread' := Node.json_of_spelled j' (hgives'.wellFormed hwf) _ (Json.spelled_ofJson j')
  rw [ReadSame, hread, hread']
  apply Both.ok
  rw [MeanSame, resolveJson_of_gives hplain hgives, resolveJson_of_gives hplain hgives']

/-- Options with the expected value in different forms are read as values that mean the same. -/
theorem both_structuredOutput (id : String) (h : List.Forall₂ o.SameOption options options') :
    Both Eq o.MeanSame (o.checkOptions id CheckOptions.structuredOutput options)
      (o.checkOptions id CheckOptions.structuredOutput options') := by
  have hentries : List.Forall₂ (Node.VariedEntry fun name n n' => name = "result" ∧ o.ReadSame n n')
      (Node.ofMembers options) (Node.ofMembers options') := by
    rw [Node.ofMembers_eq_map, Node.ofMembers_eq_map, List.forall₂_map_left_iff,
      List.forall₂_map_right_iff]
    apply h.imp
    rintro ⟨key, j⟩ ⟨_, j'⟩ ⟨rfl, hj⟩
    refine ⟨rfl, ?_⟩
    obtain rfl | ⟨rfl, hresult⟩ := hj
    · exact .inl rfl
    · exact .inr ⟨_, rfl, rfl, hresult.readSame⟩
  -- the record has a field for the expected value and no other one
  have hcarries : CheckOptions.structuredOutput.Carries .value
      (fun name n n' => name = "result" ∧ o.ReadSame n n') o.MeanSame := by
    refine ⟨fun _ => rfl, List.forall_mem_singleton.mpr ?_⟩
    apply Field.Carries.of_read (A := o.MeanSame) (fun _ => rfl)
    · exact fun n n' h => h.2
    · exact fun _ _ _ _ _ h => h
  have hsrc : ∀ yaml, Source.value ≠ .aside yaml := nofun
  have hread : Both Eq o.MeanSame
      (CheckOptions.structuredOutput.read .value (Node.ofJson (.object options)))
      (CheckOptions.structuredOutput.read .value (Node.ofJson (.object options'))) :=
    Record.both_read hcarries hsrc (.mapping hentries)
  apply o.both_checkOptions _ hread
  rintro m _ rfl
  rfl

/-- A check for a value does not depend on the form in which the value is given. -/
theorem resolveKind_eq_of_sameOption (h : List.Forall₂ o.SameOption options options') :
    o.resolveKind "structured_output" options = o.resolveKind "structured_output" options' := by
  unfold resolveKind
  rw [if_neg (by decide), if_neg (by decide), if_pos rfl, if_neg (by decide), if_neg (by decide),
    if_pos rfl]
  apply Both.eq
  apply (both_structuredOutput _ h).bind
  intro j j' hj
  rw [show o.resolveJson j = o.resolveJson j' from hj]
  exact Both.refl (fun _ => rfl) (fun _ => rfl) _

/-- Options have the same keys, whatever form their values have. -/
theorem fst_eq_of_sameOption (m m' : String × Json) (h : o.SameOption m m') : m.1 = m'.1 := h.1

/-- An object for a check for a value does not depend on the form of the value. -/
theorem resolveCheck_eq_of_sameOption
    (hid : Members.lookup ms "id" = some (.string "structured_output"))
    (h : List.Forall₂ o.SameOption ms ms') :
    o.resolveCheck (.object ms) = o.resolveCheck (.object ms') := by
  have hid' := hid
  rw [lookup_eq_of_sameOption h (by decide)] at hid'
  -- the id and the name are taken out of both
  have hoptions := Members.forall₂_remove fst_eq_of_sameOption h "id"
  have hrest := Members.forall₂_remove fst_eq_of_sameOption hoptions "name"
  have hname : Members.lookup (ms.remove "id") "name" = Members.lookup (ms'.remove "id") "name" :=
    lookup_eq_of_sameOption hoptions (by decide)
  simp only [resolveCheck, hid, hid', hname, resolveKind_eq_of_sameOption hrest]

/-- Items for the same check. -/
theorem SameItem.resolveCheck_eq (h : o.SameItem j j') : o.resolveCheck j = o.resolveCheck j' := by
  obtain rfl | ⟨ms, ms', rfl, rfl, hid, hms⟩ := h
  · rfl
  · exact resolveCheck_eq_of_sameOption hid hms

/-- Options for the same check, under its id. -/
theorem SameNamed.resolveEntry_eq {m m' : String × Json} (h : o.SameNamed m m') :
    o.resolveEntry m = o.resolveEntry m' := by
  obtain rfl | ⟨ms, ms', rfl, rfl, hms⟩ := h
  · rfl
  · apply resolveCheck_eq_of_sameOption (Members.lookup_insert_self _ _ _)
    exact Members.forall₂_insert fst_eq_of_sameOption hms ⟨rfl, .inl rfl⟩

/-- Checks do not depend on the form in which the values are given that they expect. -/
theorem resolveChecks_eq_of_same (h : o.SameChecks j j') :
    o.resolveChecks (some j) = o.resolveChecks (some j') := by
  cases h with
  | list h => exact Both.mapM_eq (h.imp fun _ _ hitem => hitem.resolveCheck_eq)
  | map h => exact Both.mapM_eq (h.imp fun _ _ hentry => hentry.resolveEntry_eq)

end Origin

end Promptwright
