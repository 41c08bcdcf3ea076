import Promptwright.Proofs.Except
import Promptwright.Proofs.Script.Spelling
import Promptwright.Proofs.Validator.Accepts
import Promptwright.Proofs.Validator.Proper
import Promptwright.Validator.Text

/-!
# How validators are read

`Zod.Reads` relates an expression of the validator library to the condition that it puts on a value
or on the lack of one.  It follows the text of the expression, method by method, and knows nothing
of how such texts are made.  The text of a validator reads as what the validator accepts.

The numbers in an expression are proper ones: what is written for a number that is not finite says
`null`.  Literals have no parts, as a new list or object is equal to no other one.

## Key results

- `exists_reads_source`: the text of a validator, read
-/

namespace Promptwright.Zod

open Measures (count)
open Script (CommentBody Literal)
open Validator (TextCheck NumberCheck SizeCheck TextFormat Property Rest Accepts AcceptsAny
  AcceptsInOrder AcceptsProperties AcceptsRest)

/-! ## The language -/

/-- A condition on a value, or on the lack of one. -/
abbrev Condition := Option Json → Prop

variable (M : Measures)

/-- Expressions for texts. -/
inductive ReadsText : String → (String → Prop) → Prop
  | string : ReadsText "z.string()" fun _ => True
  | min {t : String} {P : String → Prop} {n : Json.Number} (hn : n.Proper) (h : ReadsText t P) :
      ReadsText (t ++ (".min(" ++ n.text ++ ")")) fun s => P s ∧ M.le n (count (M.length s))
  | max {t : String} {P : String → Prop} {n : Json.Number} (hn : n.Proper) (h : ReadsText t P) :
      ReadsText (t ++ (".max(" ++ n.text ++ ")")) fun s => P s ∧ M.le (count (M.length s)) n
  | regex {t q r : String} {P : String → Prop} (hq : Literal q r) (h : ReadsText t P) :
      ReadsText (t ++ (".regex(new RegExp(" ++ q ++ "))")) fun s => P s ∧ M.matchesPattern r s
  | email {t : String} {P : String → Prop} (h : ReadsText t P) :
      ReadsText (t ++ ".email()") fun s => P s ∧ M.hasFormat .email s
  | url {t : String} {P : String → Prop} (h : ReadsText t P) :
      ReadsText (t ++ ".url()") fun s => P s ∧ M.hasFormat .url s
  | uuid {t : String} {P : String → Prop} (h : ReadsText t P) :
      ReadsText (t ++ ".uuid()") fun s => P s ∧ M.hasFormat .uuid s
  | datetime {t : String} {P : String → Prop} (h : ReadsText t P) :
      ReadsText (t ++ ".datetime()") fun s => P s ∧ M.hasFormat .dateTime s

/-- Expressions for numbers. -/
inductive ReadsNumber : String → (Json.Number → Prop) → Prop
  | number : ReadsNumber "z.number()" fun _ => True
  | int {t : String} {P : Json.Number → Prop} (h : ReadsNumber t P) :
      ReadsNumber (t ++ ".int()") fun n => P n ∧ M.whole n
  | gt {t : String} {P : Json.Number → Prop} {b : Json.Number} (hb : b.Proper)
      (h : ReadsNumber t P) :
      ReadsNumber (t ++ (".gt(" ++ b.text ++ ")")) fun n => P n ∧ M.lt b n
  | gte {t : String} {P : Json.Number → Prop} {b : Json.Number} (hb : b.Proper)
      (h : ReadsNumber t P) :
      ReadsNumber (t ++ (".gte(" ++ b.text ++ ")")) fun n => P n ∧ M.le b n
  | lt {t : String} {P : Json.Number → Prop} {b : Json.Number} (hb : b.Proper)
      (h : ReadsNumber t P) :
      ReadsNumber (t ++ (".lt(" ++ b.text ++ ")")) fun n => P n ∧ M.lt n b
  | lte {t : String} {P : Json.Number → Prop} {b : Json.Number} (hb : b.Proper)
      (h : ReadsNumber t P) :
      ReadsNumber (t ++ (".lte(" ++ b.text ++ ")")) fun n => P n ∧ M.le n b
  | multipleOf {t : String} {P : Json.Number → Prop} {b : Json.Number} (hb : b.Proper)
      (h : ReadsNumber t P) :
      ReadsNumber (t ++ (".multipleOf(" ++ b.text ++ ")")) fun n => P n ∧ M.multiple n b

/-- The texts of values without parts. -/
inductive ReadsScalar : String → Json → Prop
  | null : ReadsScalar "null" .null
  | true : ReadsScalar "true" (.bool Bool.true)
  | false : ReadsScalar "false" (.bool Bool.false)
  | number {n : Json.Number} (hn : n.Proper) : ReadsScalar n.text (.number n)
  | string {q s : String} (hq : Literal q s) : ReadsScalar q (.string s)

/-- String literals between commas. -/
inductive ReadsLiterals : String → List String → Prop
  | nil : ReadsLiterals "" []
  | one {q s : String} (hq : Literal q s) : ReadsLiterals q [s]
  | cons {q s t : String} {ss : List String} (hq : Literal q s) (h : ReadsLiterals t ss) :
      ReadsLiterals (q ++ ", " ++ t) (s :: ss)

mutual

/-- Expressions of the validator library and the conditions that they stand for. -/
inductive Reads : String → Condition → Prop
  | any : Reads "z.any()" fun _ => True
  | never : Reads "z.never()" fun _ => False
  | comment {c t : String} {P : Condition} (hc : CommentBody c.toList) (h : Reads t P) :
      Reads ("/*" ++ c ++ "*/ " ++ t) P
  | text {t : String} {P : String → Prop} (h : ReadsText M t P) :
      Reads t fun x => ∃ s, x = some (.string s) ∧ P s
  | number {t : String} {P : Json.Number → Prop} (h : ReadsNumber M t P) :
      Reads t fun x => ∃ n, x = some (.number n) ∧ P n
  | boolean : Reads "z.boolean()" fun x => ∃ b, x = some (.bool b)
  | null : Reads "z.null()" fun x => x = some .null
  | literal {t : String} {j : Json} (ht : ReadsScalar t j) :
      Reads ("z.literal(" ++ t ++ ")") fun x => ∃ y, x = some y ∧ M.Equal j y
  | enum {t : String} {ss : List String} (h : ReadsLiterals t ss) :
      Reads ("z.enum([" ++ t ++ "])") fun x => ∃ s ∈ ss, x = some (.string s)
  | union {t : String} {Ps : List Condition} (h : ReadsList t Ps) :
      Reads ("z.union([" ++ t ++ "])") fun x => ∃ P ∈ Ps, P x
  | intersection {t u : String} {P Q : Condition} (h : Reads t P) (h' : Reads u Q) :
      Reads ("z.intersection(" ++ t ++ ", " ++ u ++ ")") fun x => P x ∧ Q x
  | array {t : String} {P : List Json → Prop} (h : ReadsArray t P) :
      Reads t fun x => ∃ ys, x = some (.array ys) ∧ P ys
  | object {t r : String} {ps : List (String × Condition)}
      {Q : List String → Json.Members → Prop} (h : ReadsMembers t ps) (hr : ReadsRest r Q) :
      Reads ("z.object(\x7b" ++ t ++ "\x7d)" ++ r) fun x => ∃ ms, x = some (.object ms) ∧
        (∀ p ∈ ps, p.2 (Json.Members.lookup ms p.1)) ∧ Q (ps.map Prod.fst) ms
  | optional {t : String} {P : Condition} (h : Reads t P) :
      Reads (t ++ ".optional()") fun x => x = none ∨ P x
  | nullable {t : String} {P : Condition} (h : Reads t P) :
      Reads (t ++ ".nullable()") fun x => x = some .null ∨ P x
  | describe {t q d : String} {P : Condition} (hq : Literal q d) (h : Reads t P) :
      Reads (t ++ ".describe(" ++ q ++ ")") P

/-- Expressions for lists. -/
inductive ReadsArray : String → (List Json → Prop) → Prop
  | array {t : String} {P : Condition} (h : Reads t P) :
      ReadsArray ("z.array(" ++ t ++ ")") fun ys => ∀ y ∈ ys, P (some y)
  | tuple {t : String} {Ps : List Condition} (h : ReadsList t Ps) :
      ReadsArray ("z.tuple([" ++ t ++ "])") fun ys => List.Forall₂ (fun P y => P (some y)) Ps ys
  | min {t : String} {P : List Json → Prop} {n : Json.Number} (hn : n.Proper)
      (h : ReadsArray t P) :
      ReadsArray (t ++ (".min(" ++ n.text ++ ")")) fun ys => P ys ∧ M.le n (count ys.length)
  | max {t : String} {P : List Json → Prop} {n : Json.Number} (hn : n.Proper)
      (h : ReadsArray t P) :
      ReadsArray (t ++ (".max(" ++ n.text ++ ")")) fun ys => P ys ∧ M.le (count ys.length) n
  | refineMin {t : String} {P : List Json → Prop} {n : Json.Number} (hn : n.Proper)
      (h : ReadsArray t P) :
      ReadsArray (t ++ (".refine((items) => items.length >= " ++ n.text ++ ")")) fun ys =>
        P ys ∧ M.le n (count ys.length)
  | refineMax {t : String} {P : List Json → Prop} {n : Json.Number} (hn : n.Proper)
      (h : ReadsArray t P) :
      ReadsArray (t ++ (".refine((items) => items.length <= " ++ n.text ++ ")")) fun ys =>
        P ys ∧ M.le (count ys.length) n

/-- Expressions between commas. -/
inductive ReadsList : String → List Condition → Prop
  | nil : ReadsList "" []
  | one {t : String} {P : Condition} (h : Reads t P) : ReadsList t [P]
  | cons {t u : String} {P : Condition} {Ps : List Condition} (h : Reads t P)
      (h' : ReadsList u Ps) : ReadsList (t ++ ", " ++ u) (P :: Ps)

/-- What stands between the braces of an object. -/
inductive ReadsMembers : String → List (String × Condition) → Prop
  | empty : ReadsMembers "" []
  | lines {t : String} {ps : List (String × Condition)} (h : ReadsEntries t ps) :
      ReadsMembers ("\n" ++ t ++ "\n") ps

/-- Names with the expressions for their values. -/
inductive ReadsEntries : String → List (String × Condition) → Prop
  | one {q name t : String} {P : Condition} (hq : Literal q name) (h : Reads t P) :
      ReadsEntries (q ++ ": " ++ t) [(name, P)]
  | cons {q name t u : String} {P : Condition} {ps : List (String × Condition)}
      (hq : Literal q name) (h : Reads t P) (h' : ReadsEntries u ps) :
      ReadsEntries (q ++ ": " ++ t ++ ",\n" ++ u) ((name, P) :: ps)

/-- What else an object may hold, given the names of its properties. -/
inductive ReadsRest : String → (List String → Json.Members → Prop) → Prop
  | free : ReadsRest "" fun _ _ => True
  | strict : ReadsRest ".strict()" fun names ms => ∀ m ∈ ms, m.1 ∈ names
  | catchall {t : String} {P : Condition} (h : Reads t P) :
      ReadsRest (".catchall(" ++ t ++ ")") fun names ms =>
        ∀ m ∈ ms, m.1 ∉ names → P (some m.2)

end

/-! ## Conditions one after the other -/

variable {M}

/-- A call of a method with a number. -/
private theorem call_eq (method opening : String) (h : "." ++ method ++ "(" = opening)
    (n : Json.Number) : Validator.call method n = opening ++ n.text ++ ")" := by
  rw [Validator.call, h]

/-- One more condition on a text. -/
theorem ReadsText.check {t : String} {P : String → Prop} (h : ReadsText M t P) {c : TextCheck}
    (hc : c.Proper) : ReadsText M (t ++ c.text) fun s => P s ∧ c.Holds M s := by
  cases c with
  | minLength n =>
    -- the rule has the name of the method together with its brackets
    show ReadsText M (t ++ Validator.call "min" n) _
    rw [call_eq "min" ".min(" (by decide)]
    exact h.min hc
  | maxLength n =>
    show ReadsText M (t ++ Validator.call "max" n) _
    rw [call_eq "max" ".max(" (by decide)]
    exact h.max hc
  | pattern r => exact h.regex (Script.literal_quote r)
  | format f =>
    cases f with
    | email => exact h.email
    | url => exact h.url
    | uuid => exact h.uuid
    | dateTime => exact h.datetime

/-- One more condition on a number. -/
theorem ReadsNumber.check {t : String} {P : Json.Number → Prop} (h : ReadsNumber M t P)
    {c : NumberCheck} (hc : c.Proper) : ReadsNumber M (t ++ c.text) fun n => P n ∧ c.Holds M n := by
  obtain ⟨relation, b⟩ := c
  cases relation with
  | greater =>
    show ReadsNumber M (t ++ Validator.call "gt" b) _
    rw [call_eq "gt" ".gt(" (by decide)]
    exact h.gt hc
  | atLeast =>
    show ReadsNumber M (t ++ Validator.call "gte" b) _
    rw [call_eq "gte" ".gte(" (by decide)]
    exact h.gte hc
  | less =>
    show ReadsNumber M (t ++ Validator.call "lt" b) _
    rw [call_eq "lt" ".lt(" (by decide)]
    exact h.lt hc
  | atMost =>
    show ReadsNumber M (t ++ Validator.call "lte" b) _
    rw [call_eq "lte" ".lte(" (by decide)]
    exact h.lte hc
  | multipleOf =>
    show ReadsNumber M (t ++ Validator.call "multipleOf" b) _
    rw [call_eq "multipleOf" ".multipleOf(" (by decide)]
    exact h.multipleOf hc

/-- One more condition on the size of a list. -/
theorem ReadsArray.check {t : String} {P : List Json → Prop} (h : ReadsArray M t P)
    {c : SizeCheck} (hc : c.Proper) :
    ReadsArray M (t ++ c.text) fun ys => P ys ∧ c.Holds M ys.length := by
  cases c with
  | min n =>
    show ReadsArray M (t ++ Validator.call "min" n) _
    rw [call_eq "min" ".min(" (by decide)]
    exact h.min hc
  | max n =>
    show ReadsArray M (t ++ Validator.call "max" n) _
    rw [call_eq "max" ".max(" (by decide)]
    exact h.max hc

/-- One more condition on the size of a tuple. -/
theorem ReadsArray.tupleCheck {t : String} {P : List Json → Prop} (h : ReadsArray M t P)
    {c : SizeCheck} (hc : c.Proper) :
    ReadsArray M (t ++ c.tupleText) fun ys => P ys ∧ c.Holds M ys.length := by
  cases c with
  | min n => exact h.refineMin hc
  | max n => exact h.refineMax hc

/-- Conditions of one kind are added one after the other. -/
theorem reads_concat {α γ : Type} {R : String → (α → Prop) → Prop} {text : γ → String}
    {Proper : γ → Prop} {Holds : γ → α → Prop}
    (step : ∀ {t P}, R t P → ∀ {c}, Proper c → R (t ++ text c) fun a => P a ∧ Holds c a)
    {cs : List γ} (hcs : ∀ c ∈ cs, Proper c) {t : String} {P : α → Prop} (h : R t P) :
    ∃ Q, R (t ++ Validator.concat (cs.map text)) Q ∧ ∀ a, Q a ↔ P a ∧ ∀ c ∈ cs, Holds c a := by
  induction cs generalizing t P with
  | nil =>
    refine ⟨P, ?_, by simp⟩
    rwa [List.map_nil, Validator.concat, List.foldr_nil, String.append_empty]
  | cons c cs ih =>
    obtain ⟨hc, hcs⟩ := List.forall_mem_cons.mp hcs
    obtain ⟨Q, hQ, hiff⟩ := ih hcs (step h hc)
    refine ⟨Q, ?_, fun a => ?_⟩
    · rw [String.append_assoc] at hQ
      exact hQ
    · rw [hiff, List.forall_mem_cons, and_assoc]

/-! ## Texts of validators -/

/-- The text of a value without parts. -/
theorem readsScalar_compact {j : Json} (hj : j.isComposite = false) (hproper : j.Proper) :
    ReadsScalar j.compact j := by
  cases j with
  | null => exact .null
  | bool b => cases b <;> constructor
  | number n => exact .number hproper
  | string s => exact .string (Script.literal_quoted s)
  | array _ => cases hj
  | object _ => cases hj

/-- Texts between commas. -/
theorem readsLiterals_intercalate (ss : List String) :
    ReadsLiterals (", ".intercalate (ss.map Json.quoted)) ss := by
  match ss with
  | [] => exact .nil
  | [s] => exact .one (Script.literal_quoted s)
  | s :: s' :: ss =>
    rw [List.map_cons, List.map_cons, String.intercalate_cons_cons]
    exact .cons (Script.literal_quoted s) (readsLiterals_intercalate (s' :: ss))

/-- The conditions of members, one of which holds. -/
theorem exists_mem_iff_acceptsAny {Ps : List Condition} {vs : List Validator}
    (h : List.Forall₂ (fun P v => ∀ x, P x ↔ Accepts M v x) Ps vs) (x : Option Json) :
    (∃ P ∈ Ps, P x) ↔ AcceptsAny M vs x := by
  induction h with
  | nil => simp [AcceptsAny]
  | cons hP _ ih => simp [AcceptsAny, ih, hP]

/-- The conditions of items, one for each. -/
theorem forall₂_iff_acceptsInOrder {Ps : List Condition} {vs : List Validator}
    (h : List.Forall₂ (fun P v => ∀ x, P x ↔ Accepts M v x) Ps vs) (ys : List Json) :
    List.Forall₂ (fun P y => P (some y)) Ps ys ↔ AcceptsInOrder M vs ys := by
  induction h generalizing ys with
  | nil => simp [AcceptsInOrder]
  | cons hP _ ih => cases ys <;> simp [AcceptsInOrder, ih, hP]

/-- A condition on a property says what the property accepts, there or not. -/
def ReadsProperty (M : Measures) (P : String × Condition) (p : Property Validator) : Prop :=
  P.1 = p.name ∧ ∀ x, P.2 x ↔ (x = none ∧ p.required = false) ∨ Accepts M p.value x

/-- The conditions on properties, all of which hold. -/
theorem forall_mem_iff_acceptsProperties {Ps : List (String × Condition)}
    {ps : List (Property Validator)} (h : List.Forall₂ (ReadsProperty M) Ps ps)
    (ms : Json.Members) :
    (∀ P ∈ Ps, P.2 (Json.Members.lookup ms P.1)) ↔ AcceptsProperties M ps ms := by
  induction h with
  | nil => simp [AcceptsProperties]
  | @cons P p _ _ hP _ ih =>
    rw [List.forall_mem_cons, ih, AcceptsProperties, hP.1, hP.2]
    refine and_congr_left fun _ => ?_
    cases Json.Members.lookup ms p.name <;> simp

/-- The names under the conditions are those of the properties. -/
theorem map_fst_of_forall₂ {Ps : List (String × Condition)} {ps : List (Property Validator)}
    (h : List.Forall₂ (ReadsProperty M) Ps ps) : Ps.map Prod.fst = ps.map Property.name :=
  (map_eq_map_of_forall₂ (h.imp fun _ _ hP => hP.1.symm)).symm

/-- A property as it is written, with a mark if it may be missing. -/
theorem exists_reads_property (name : String) {t : String} {P : Condition} (h : Reads M t P)
    {v : Validator} (hP : ∀ x, P x ↔ Accepts M v x) (required : Bool) :
    ∃ Q, Reads M (t ++ Validator.optionalText required) Q ∧
      ReadsProperty M (name, Q) ⟨name, required, v⟩ := by
  cases required with
  | true =>
    refine ⟨P, ?_, rfl, fun x => ?_⟩
    · rw [Validator.optionalText, if_pos rfl, String.append_empty]
      exact h
    · simp [hP]
  | false => exact ⟨_, h.optional, rfl, fun x => by simp [hP]⟩

mutual

/-- The text of a validator reads as what it accepts. -/
theorem exists_reads_source : (v : Validator) → v.Proper →
    ∃ P, Reads M v.source P ∧ ∀ x, P x ↔ Accepts M v x
  | .any, _ => ⟨_, .any, fun _ => Iff.rfl⟩
  | .never, _ => ⟨_, .never, fun _ => Iff.rfl⟩
  | .unknown gap, _ => by
    obtain ⟨c, hc, hcomment⟩ := Script.exists_comment_eq gap
    -- the space behind the comment belongs to its end in the rule
    have htext : Validator.source (.unknown gap) = "/*" ++ c ++ "*/ " ++ "z.any()" := by
      have hany : " z.any()" = " " ++ "z.any()" := by decide
      have hend : "*/ " = "*/" ++ " " := by decide
      show gap.comment ++ " z.any()" = _
      rw [hcomment, hany, hend]
      simp only [String.append_assoc]
    rw [htext]
    exact ⟨_, .comment hc .any, fun _ => Iff.rfl⟩
  | .text checks, hv => by
    obtain ⟨Q, hQ, hiff⟩ := reads_concat ReadsText.check hv (ReadsText.string (M := M))
    refine ⟨_, .text hQ, fun x => ?_⟩
    simp only [hiff, true_and, Accepts]
  | .number whole checks, hv => by
    cases whole with
    | true =>
      have hwhole := (ReadsNumber.number (M := M)).int
      obtain ⟨Q, hQ, hiff⟩ := reads_concat ReadsNumber.check hv hwhole
      refine ⟨_, .number hQ, fun x => ?_⟩
      simp only [hiff, true_and, Accepts, true_implies]
    | false =>
      obtain ⟨Q, hQ, hiff⟩ := reads_concat ReadsNumber.check hv (ReadsNumber.number (M := M))
      refine ⟨_, .number hQ, fun x => ?_⟩
      simp only [hiff, true_and, Accepts, Bool.false_eq_true, false_implies]
  | .boolean, _ => ⟨_, .boolean, fun _ => Iff.rfl⟩
  | .null, _ => ⟨_, .null, fun _ => Iff.rfl⟩
  | .literal j, hv =>
    ⟨_, .literal (readsScalar_compact hv.1 hv.2), fun x => by simp [Accepts, hv.1]⟩
  | .choice values, _ => ⟨_, .enum (readsLiterals_intercalate values), fun _ => Iff.rfl⟩
  | .union members, hv => by
    obtain ⟨Ps, hPs, hiff⟩ := exists_reads_itemsSource members hv
    exact ⟨_, .union hPs, exists_mem_iff_acceptsAny hiff⟩
  | .intersection left right, hv => by
    obtain ⟨P, hP, hl⟩ := exists_reads_source left hv.1
    obtain ⟨Q, hQ, hr⟩ := exists_reads_source right hv.2
    exact ⟨_, .intersection hP hQ, fun x => and_congr (hl x) (hr x)⟩
  | .array item checks, hv => by
    obtain ⟨P, hP, hiff⟩ := exists_reads_source item hv.1
    obtain ⟨Q, hQ, hiff'⟩ := reads_concat ReadsArray.check hv.2 (ReadsArray.array hP)
    refine ⟨_, .array hQ, fun x => ?_⟩
    simp only [hiff', hiff, Accepts]
  | .tuple items checks, hv => by
    obtain ⟨Ps, hPs, hiff⟩ := exists_reads_itemsSource items hv.1
    obtain ⟨Q, hQ, hiff'⟩ := reads_concat ReadsArray.tupleCheck hv.2 (ReadsArray.tuple hPs)
    refine ⟨_, .array hQ, fun x => ?_⟩
    simp only [hiff', forall₂_iff_acceptsInOrder hiff, Accepts]
  | .object [] rest, hv => by
    obtain ⟨Q, hQ, hrest⟩ := exists_reads_restSource rest hv.2
    exact ⟨_, .object .empty hQ, fun x => by simp [Accepts, AcceptsProperties, hrest]⟩
  | .object (p :: ps) rest, hv => by
    obtain ⟨Ps, hPs, hprops⟩ :=
      exists_reads_propertiesSource (p :: ps) (List.cons_ne_nil _ _) hv.1
    obtain ⟨Q, hQ, hrest⟩ := exists_reads_restSource rest hv.2
    -- the rule has the lines between the braces as one text
    have htext : Validator.source (.object (p :: ps) rest) =
        "z.object(\x7b" ++ ("\n" ++ Validator.propertiesSource (p :: ps) ++ "\n") ++ "\x7d)" ++
          Validator.restSource rest := by
      have hopen : "z.object(\x7b\n" = "z.object(\x7b" ++ "\n" := by decide
      have hclose : "\n\x7d)" = "\n" ++ "\x7d)" := by decide
      show "z.object(\x7b\n" ++ _ ++ "\n\x7d)" ++ _ = _
      rw [hopen, hclose]
      simp only [String.append_assoc]
    rw [htext]
    refine ⟨_, .object (.lines hPs) hQ, fun x => ?_⟩
    simp only [forall_mem_iff_acceptsProperties hprops, map_fst_of_forall₂ hprops, hrest, Accepts]
  | .nullable v, hv => by
    obtain ⟨P, hP, hiff⟩ := exists_reads_source v hv
    exact ⟨_, .nullable hP, fun x => or_congr_right (hiff x)⟩
  | .described v description, hv => by
    obtain ⟨P, hP, hiff⟩ := exists_reads_source v hv
    exact ⟨_, .describe (Script.literal_quote description) hP, hiff⟩
  termination_by structural v => v

/-- The same for validators between commas. -/
theorem exists_reads_itemsSource : (vs : List Validator) → Validator.ProperAll vs → ∃ Ps,
    ReadsList M (Validator.itemsSource vs) Ps ∧
      List.Forall₂ (fun P v => ∀ x, P x ↔ Accepts M v x) Ps vs
  | [], _ => ⟨[], .nil, .nil⟩
  | [v], hvs => by
    obtain ⟨P, hP, hiff⟩ := exists_reads_source v hvs.1
    exact ⟨[P], .one hP, .cons hiff .nil⟩
  | v :: w :: vs, hvs => by
    obtain ⟨P, hP, hiff⟩ := exists_reads_source v hvs.1
    obtain ⟨Ps, hPs, hiffs⟩ := exists_reads_itemsSource (w :: vs) hvs.2
    exact ⟨P :: Ps, .cons hP hPs, .cons hiff hiffs⟩
  termination_by structural vs => vs

/-- The same for properties on lines of their own. -/
theorem exists_reads_propertiesSource : (ps : List (Property Validator)) → ps ≠ [] →
    Validator.ProperProperties ps → ∃ Ps,
    ReadsEntries M (Validator.propertiesSource ps) Ps ∧ List.Forall₂ (ReadsProperty M) Ps ps
  | [], h, _ => (h rfl).elim
  | [⟨name, required, v⟩], _, hps => by
    obtain ⟨P, hP, hiff⟩ := exists_reads_source v hps.1
    obtain ⟨Q, hQ, hprop⟩ := exists_reads_property name hP hiff required
    refine ⟨[(name, Q)], ?_, .cons hprop .nil⟩
    have hentries := ReadsEntries.one (Script.literal_quote name) hQ
    rw [← String.append_assoc] at hentries
    exact hentries
  | ⟨name, required, v⟩ :: q :: ps, _, hps => by
    obtain ⟨P, hP, hiff⟩ := exists_reads_source v hps.1
    obtain ⟨Q, hQ, hprop⟩ := exists_reads_property name hP hiff required
    obtain ⟨Ps, hPs, hiffs⟩ := exists_reads_propertiesSource (q :: ps) (List.cons_ne_nil _ _) hps.2
    refine ⟨(name, Q) :: Ps, ?_, .cons hprop hiffs⟩
    have hentries := ReadsEntries.cons (Script.literal_quote name) hQ hPs
    -- the mark of a name that may be missing is a part of its expression
    have hassoc : Script.quote name ++ ": " ++ (v.source ++ Validator.optionalText required) =
        Script.quote name ++ ": " ++ v.source ++ Validator.optionalText required :=
      String.append_assoc.symm
    rw [hassoc] at hentries
    exact hentries
  termination_by structural ps => ps

/-- The same for what else an object may hold. -/
theorem exists_reads_restSource : (r : Rest Validator) → Validator.ProperRest r → ∃ Q,
    ReadsRest M (Validator.restSource r) Q ∧ ∀ names ms, Q names ms ↔ AcceptsRest M r names ms
  | .free, _ => ⟨_, .free, fun _ _ => Iff.rfl⟩
  | .nothing, _ => ⟨_, .strict, fun _ _ => Iff.rfl⟩
  | .each v, hr => by
    obtain ⟨P, hP, hiff⟩ := exists_reads_source v hr
    exact ⟨_, .catchall hP, fun names ms => by simp only [hiff, AcceptsRest]⟩
  termination_by structural r => r

end

end Promptwright.Zod
