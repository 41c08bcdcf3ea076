import Promptwright.Proofs.Validator.Reading

/-!
# Reading validators from the left to the right

The rules of `Zod.Reads` put methods behind an expression, and nothing in them says that a text has
one reading only.  `Zod.Expression` reads the same language from the left to the right: the first
characters say how an expression starts, every method is known by its own start, and what has been
read so far is kept in a `Stage`.  At each place one rule applies at most, so what is read there is
determined.

## Key results

- `telling_numberArgument`, `telling_scalarArgument`, `telling_literalsArgument`,
  `telling_commentEnd`: the parts of expressions tell what they stand for
- `Expression.unique`: what an expression stands for and where it ends
-/

namespace Promptwright.Zod

open Measures (count)
open Script (CommentBody Literal Starts Stops Told ToldWord)

/-! ## Parts that are known by themselves -/

/-- The parts of texts that a relation reads tell their values, whatever follows them. -/
def Telling {α : Type} (R : String → α → Prop) : Prop :=
  ∀ {t u : String} {a b : α}, R t a → R u b → Told t u (a = b)

/-! ## Starts of expressions and of methods -/

/-- How an expression starts. -/
inductive Former
  | any | never | comment | text | number | boolean | null | literal | enum | union | intersection
  | array | tuple | object
deriving DecidableEq

namespace Former

/-- The first characters of an expression. -/
def opening : Former → String
  | any => "z.any()"
  | never => "z.never()"
  | comment => "/*"
  | text => "z.string()"
  | number => "z.number()"
  | boolean => "z.boolean()"
  | null => "z.null()"
  | literal => "z.literal("
  | enum => "z.enum(["
  | union => "z.union(["
  | intersection => "z.intersection("
  | array => "z.array("
  | tuple => "z.tuple(["
  | object => "z.object(\x7b"

/-- All of them. -/
def all : List Former :=
  [any, never, comment, text, number, boolean, null, literal, enum, union, intersection, array,
    tuple, object]

/-- There are no others. -/
theorem mem_all (f : Former) : f ∈ all := by cases f <;> decide

end Former

/-- What is called on an expression. -/
inductive Method
  | min | max | regex | email | url | uuid | datetime | int | gt | gte | lt | lte | multipleOf
  | refineMin | refineMax | strict | catchall | optional | nullable | describe
deriving DecidableEq

/-- What stands between the brackets of a method. -/
inductive Taking
  | nothing
  | number
  | text (closing : String)
  | expression

namespace Method

/-- The first characters of a method, up to what stands between its brackets. -/
def opening : Method → String
  | min => ".min("
  | max => ".max("
  | regex => ".regex(new RegExp("
  | email => ".email()"
  | url => ".url()"
  | uuid => ".uuid()"
  | datetime => ".datetime()"
  | int => ".int()"
  | gt => ".gt("
  | gte => ".gte("
  | lt => ".lt("
  | lte => ".lte("
  | multipleOf => ".multipleOf("
  | refineMin => ".refine((items) => items.length >= "
  | refineMax => ".refine((items) => items.length <= "
  | strict => ".strict()"
  | catchall => ".catchall("
  | optional => ".optional()"
  | nullable => ".nullable()"
  | describe => ".describe("

/-- What a method takes. -/
def takes : Method → Taking
  | min | max | gt | gte | lt | lte | multipleOf | refineMin | refineMax => .number
  | regex => .text "))"
  | describe => .text ")"
  | catchall => .expression
  | email | url | uuid | datetime | int | strict | optional | nullable => .nothing

/-- All of them. -/
def all : List Method :=
  [min, max, regex, email, url, uuid, datetime, int, gt, gte, lt, lte, multipleOf, refineMin,
    refineMax, strict, catchall, optional, nullable, describe]

/-- There are no others. -/
theorem mem_all (m : Method) : m ∈ all := by cases m <;> decide

end Method

/-- Openings none of which starts another one are told apart. -/
theorem telling_opening {α : Type} {opening : α → String} (all : List α) (hall : ∀ a, a ∈ all)
    (h : ∀ a ∈ all, ∀ b ∈ all, (opening a).toList <+: (opening b).toList → a = b) :
    Telling fun t a => t = opening a := by
  rintro _ _ a b rfl rfl
  by_cases hab : a = b
  · subst hab
    exact (Told.same _).mono fun _ => rfl
  · exact .differ List.prefix_rfl List.prefix_rfl
      ⟨fun hp => hab (h a (hall a) b (hall b) hp), fun hp => hab (h b (hall b) a (hall a) hp).symm⟩

/-- Expressions that start in different ways. -/
theorem Former.telling : Telling fun t (f : Former) => t = f.opening :=
  telling_opening Former.all Former.mem_all (by decide +kernel)

/-- Different methods. -/
theorem Method.telling : Telling fun t (m : Method) => t = m.opening :=
  telling_opening Method.all Method.mem_all (by decide +kernel)

/-! ## What stands between brackets -/

/-- A number and the bracket behind it. -/
def NumberArgument (t : String) (n : Json.Number) : Prop := n.Proper ∧ t = n.text ++ ")"

/-- A value without parts and the bracket behind it. -/
def ScalarArgument (t : String) (j : Json) : Prop := ∃ u, ReadsScalar u j ∧ t = u ++ ")"

/-- String literals and the brackets behind them. -/
def LiteralsArgument (t : String) (ss : List String) : Prop :=
  ∃ u, ReadsLiterals u ss ∧ t = u ++ "])"

/-- What is left of a comment behind its start. -/
def CommentEnd (t : String) (_ : Unit) : Prop := ∃ c : String, CommentBody c.toList ∧ t = c ++ "*/ "

/-- A bracket stops a word. -/
theorem stops_bracket : Stops ")" := ⟨')', by decide, by decide⟩

/-- Numbers are told apart. -/
theorem telling_numberArgument : Telling NumberArgument := by
  rintro _ _ n m ⟨hn, rfl⟩ ⟨hm, rfl⟩
  have hword := ToldWord.word (Script.wordText_number n) (Script.wordText_number m)
  refine (hword.append stops_bracket stops_bracket fun _ => Told.same ")").mono fun h => ?_
  exact Json.Number.text_injective hn hm h.1

/-- A text for a value without parts is a string literal, or what is printed for the value. -/
theorem ReadsScalar.cases_string {t : String} {j : Json} (h : ReadsScalar t j) :
    (∃ s, j = .string s ∧ Literal t s) ∨ (j.lead ≠ '"' ∧ j.Proper ∧ t = Json.prettyAt 0 j) := by
  cases h with
  | null => exact .inr ⟨by decide, trivial, rfl⟩
  | true => exact .inr ⟨by decide, trivial, rfl⟩
  | false => exact .inr ⟨by decide, trivial, rfl⟩
  | number hn => exact .inr ⟨by simp [Json.lead], hn, rfl⟩
  | string hq => exact .inl ⟨_, rfl, hq⟩

/-- String literals start with a quote. -/
theorem starts_literal {t s : String} (h : Literal t s) : Starts ['"'] t := by
  obtain ⟨body, ht, -⟩ := h
  exact ⟨body ++ ['"'], by rw [ht]; rfl⟩

/-- A string literal is told apart from what is printed for any other value. -/
theorem told_literal_printed {t s : String} (h : Literal t s) {j : Json} (hj : j.Proper)
    (hlead : j.lead ≠ '"') {P : Prop} : Told t (Json.prettyAt 0 j) P := by
  obtain ⟨c, hc, hkind⟩ := Json.exists_head_prettyAt 0 hj
  obtain ⟨rest, hrest⟩ := List.head?_eq_some_iff.mp hc
  have hstart : Starts [c] (Json.prettyAt 0 j) := ⟨rest, by rw [hrest]; rfl⟩
  -- a value whose text starts with a quote is a string
  have hne : c ≠ '"' := by
    rintro rfl
    exact hlead (hkind.symm.trans (by decide))
  exact .differ (starts_literal h) hstart (by simp [hne, hne.symm])

/-- Values without parts are told apart. -/
theorem telling_scalarArgument : Telling ScalarArgument := by
  rintro _ _ j k ⟨t, ht, rfl⟩ ⟨u, hu, rfl⟩
  obtain ⟨s, rfl, hs⟩ | ⟨hlead, hj, rfl⟩ := ht.cases_string
  · obtain ⟨s', rfl, hs'⟩ | ⟨hlead', hk, rfl⟩ := hu.cases_string
    · exact ((Told.literal hs hs').mono (congrArg Json.string)).before ")"
    · exact (told_literal_printed hs hk hlead').never _ _
  · obtain ⟨s', rfl, hs'⟩ | ⟨-, hk, rfl⟩ := hu.cases_string
    · exact (told_literal_printed hs' hj hlead).symm.never _ _
    · have hword := Json.toldWord_prettyAt 0 j hj k hk
      exact (hword.append stops_bracket stops_bracket fun _ => Told.same ")").mono And.left

/-- Lists of string literals are told apart. -/
theorem told_literals {t u : String} {ss ss' : List String} (h : ReadsLiterals t ss)
    (h' : ReadsLiterals u ss') : Told (t ++ "])") (u ++ "])") (ss = ss') := by
  have hclose : Starts [']'] ("" ++ "])") := by simp [Starts]
  have hcomma : Starts [','] ", " := by simp [Starts]
  have hbracket : Starts [']'] "])" := by simp [Starts]
  induction h generalizing u ss' with
  | nil =>
    cases h' with
    | nil => exact (Told.same _).mono fun _ => rfl
    | one hq => exact .differ hclose ((starts_literal hq).append _) (by decide)
    | cons hq _ =>
      simp only [String.append_assoc]
      exact .differ hclose ((starts_literal hq).append _) (by decide)
  | one hq =>
    cases h' with
    | nil => exact .differ ((starts_literal hq).append _) hclose (by decide)
    | one hq' => exact ((Told.literal hq hq').mono fun h => by rw [h]).before "])"
    | cons hq' _ =>
      -- the list ends on the one side, and goes on with a comma on the other
      simp only [String.append_assoc]
      refine ((Told.literal hq hq').append fun _ => ?_).mono And.right
      exact .differ hbracket (hcomma.append _) (by decide)
  | cons hq _ ih =>
    simp only [String.append_assoc]
    cases h' with
    | nil => exact .differ ((starts_literal hq).append _) hclose (by decide)
    | one hq' =>
      refine ((Told.literal hq hq').append fun _ => ?_).mono And.right
      exact .differ (hcomma.append _) hbracket (by decide)
    | cons hq' h' =>
      simp only [String.append_assoc]
      refine ((Told.literal hq hq').append fun _ => (ih h').after ", ").mono fun h => ?_
      rw [h.1, h.2]

/-- The same for the argument as a whole. -/
theorem telling_literalsArgument : Telling LiteralsArgument := by
  rintro _ _ ss ss' ⟨t, ht, rfl⟩ ⟨u, hu, rfl⟩
  exact told_literals ht hu

/-- Two comments in equal texts end in the same place. -/
theorem commentBody_append_inj {cs ds r s : List Char} (hc : CommentBody cs) (hd : CommentBody ds)
    (h : cs ++ '*' :: '/' :: r = ds ++ '*' :: '/' :: s) : r = s := by
  -- where the one comment has ended already, the other one would hold this end
  have hend : ∀ {c : Char} {es r s : List Char}, CommentBody (c :: es) →
      '*' :: '/' :: r ≠ c :: es ++ '*' :: '/' :: s := by
    intro c es r s hbody heq
    obtain ⟨hstar, hslash⟩ := List.cons.inj heq
    cases es with
    | nil => cases hslash
    | cons e es =>
      obtain rfl := (List.cons.inj hslash).1
      exact hbody ⟨[], es, by rw [← hstar]; rfl⟩
  induction cs generalizing ds with
  | nil =>
    cases ds with
    | nil => simpa using h
    | cons d ds => exact absurd h (hend hd)
  | cons c cs ih =>
    cases ds with
    | nil => exact absurd h.symm (hend hc)
    | cons d ds =>
      have htail : ∀ {c : Char} {es : List Char}, CommentBody (c :: es) → CommentBody es :=
        fun hbody hin => hbody (List.infix_cons_iff.mpr (.inr hin))
      exact ih (htail hc) (htail hd) (List.cons.inj h).2

/-- The ends of comments. -/
theorem telling_commentEnd : Telling CommentEnd := by
  rintro _ _ _ _ ⟨c, hc, rfl⟩ ⟨d, hd, rfl⟩ r s heq
  have hlist := congrArg String.toList heq
  have hclose : "*/ ".toList = ['*', '/', ' '] := by decide
  simp only [String.toList_append, hclose, List.append_assoc, List.cons_append,
    List.nil_append] at hlist
  have hrest := commentBody_append_inj hc hd hlist
  exact ⟨rfl, String.toList_inj.mp (List.cons.inj hrest).2⟩

/-! ## From the left to the right -/

/-- What stood between the brackets of a method. -/
inductive Argument
  | nothing
  | number (n : Json.Number)
  | text (s : String)
  | condition (P : Condition)

/-- What an expression says up to one of its methods: a method on texts, say, adds to what is asked
of a text, and behind a method like `optional` none but its kind may follow. -/
inductive Stage
  | text (P : String → Prop)
  | number (P : Json.Number → Prop)
  | array (P : List Json → Prop)
  | object (ps : List (String × Condition))
  | done (P : Condition)

/-- The condition on an object with some properties and further members. -/
def objectCondition (ps : List (String × Condition)) (Q : List String → Json.Members → Prop) :
    Condition := fun x => ∃ ms, x = some (.object ms) ∧
      (∀ p ∈ ps, p.2 (Json.Members.lookup ms p.1)) ∧ Q (ps.map Prod.fst) ms

/-- The condition that an expression stands for if it ends here. -/
def Stage.condition : Stage → Condition
  | .text P => fun x => ∃ s, x = some (.string s) ∧ P s
  | .number P => fun x => ∃ n, x = some (.number n) ∧ P n
  | .array P => fun x => ∃ ys, x = some (.array ys) ∧ P ys
  | .object ps => objectCondition ps fun _ _ => True
  | .done P => P

variable (M : Measures)

/-- What a method makes of an expression. -/
def Stage.call : Stage → Method → Argument → Option Stage
  | .text P, .min, .number n => some (.text fun s => P s ∧ M.le n (count (M.length s)))
  | .text P, .max, .number n => some (.text fun s => P s ∧ M.le (count (M.length s)) n)
  | .text P, .regex, .text r => some (.text fun s => P s ∧ M.matchesPattern r s)
  | .text P, .email, .nothing => some (.text fun s => P s ∧ M.hasFormat .email s)
  | .text P, .url, .nothing => some (.text fun s => P s ∧ M.hasFormat .url s)
  | .text P, .uuid, .nothing => some (.text fun s => P s ∧ M.hasFormat .uuid s)
  | .text P, .datetime, .nothing => some (.text fun s => P s ∧ M.hasFormat .dateTime s)
  | .number P, .int, .nothing => some (.number fun n => P n ∧ M.whole n)
  | .number P, .gt, .number b => some (.number fun n => P n ∧ M.lt b n)
  | .number P, .gte, .number b => some (.number fun n => P n ∧ M.le b n)
  | .number P, .lt, .number b => some (.number fun n => P n ∧ M.lt n b)
  | .number P, .lte, .number b => some (.number fun n => P n ∧ M.le n b)
  | .number P, .multipleOf, .number b => some (.number fun n => P n ∧ M.multiple n b)
  | .array P, .min, .number n => some (.array fun ys => P ys ∧ M.le n (count ys.length))
  | .array P, .max, .number n => some (.array fun ys => P ys ∧ M.le (count ys.length) n)
  | .array P, .refineMin, .number n => some (.array fun ys => P ys ∧ M.le n (count ys.length))
  | .array P, .refineMax, .number n => some (.array fun ys => P ys ∧ M.le (count ys.length) n)
  | .object ps, .strict, .nothing =>
    some (.done (objectCondition ps fun names ms => ∀ m ∈ ms, m.1 ∈ names))
  | .object ps, .catchall, .condition P =>
    some (.done (objectCondition ps fun names ms => ∀ m ∈ ms, m.1 ∉ names → P (some m.2)))
  | σ, .optional, .nothing => some (.done fun x => x = none ∨ σ.condition x)
  | σ, .nullable, .nothing => some (.done fun x => x = some .null ∨ σ.condition x)
  | σ, .describe, .text _ => some (.done σ.condition)
  | _, _, _ => none

mutual

/-- An expression at the start of a text, what it stands for, and the rest of the text. -/
inductive Expression : String → Condition → String → Prop
  | start {t u r : String} {P : Condition} (f : Former) (ht : t = f.opening ++ u)
      (h : Formed f u P r) : Expression t P r

/-- What follows the start of an expression. -/
inductive Formed : Former → String → Condition → String → Prop
  | any {t r : String} {P : Condition} (h : Methods (.done fun _ => True) t P r) :
      Formed .any t P r
  | never {t r : String} {P : Condition} (h : Methods (.done fun _ => False) t P r) :
      Formed .never t P r
  | comment {t a u r : String} {P : Condition} (ha : CommentEnd a ()) (ht : t = a ++ u)
      (h : Expression u P r) : Formed .comment t P r
  | text {t r : String} {P : Condition} (h : Methods (.text fun _ => True) t P r) :
      Formed .text t P r
  | number {t r : String} {P : Condition} (h : Methods (.number fun _ => True) t P r) :
      Formed .number t P r
  | boolean {t r : String} {P : Condition}
      (h : Methods (.done fun x => ∃ b, x = some (.bool b)) t P r) : Formed .boolean t P r
  | null {t r : String} {P : Condition} (h : Methods (.done fun x => x = some .null) t P r) :
      Formed .null t P r
  | literal {t a u r : String} {j : Json} {P : Condition} (ha : ScalarArgument a j)
      (ht : t = a ++ u) (h : Methods (.done fun x => ∃ y, x = some y ∧ M.Equal j y) u P r) :
      Formed .literal t P r
  | enum {t a u r : String} {ss : List String} {P : Condition} (ha : LiteralsArgument a ss)
      (ht : t = a ++ u) (h : Methods (.done fun x => ∃ s ∈ ss, x = some (.string s)) u P r) :
      Formed .enum t P r
  | union {t u r : String} {Ps : List Condition} {P : Condition} (ha : Expressions t Ps u)
      (h : Methods (.done fun x => ∃ P ∈ Ps, P x) u P r) : Formed .union t P r
  | intersection {t u v r : String} {P Q S : Condition} (ha : Expression t P (", " ++ u))
      (hb : Expression u Q (")" ++ v)) (h : Methods (.done fun x => P x ∧ Q x) v S r) :
      Formed .intersection t S r
  | array {t u r : String} {P S : Condition} (ha : Expression t P (")" ++ u))
      (h : Methods (.array fun ys => ∀ y ∈ ys, P (some y)) u S r) : Formed .array t S r
  | tuple {t u r : String} {Ps : List Condition} {P : Condition} (ha : Expressions t Ps u)
      (h : Methods (.array fun ys => List.Forall₂ (fun P y => P (some y)) Ps ys) u P r) :
      Formed .tuple t P r
  | object {t u r : String} {ps : List (String × Condition)} {P : Condition} (ha : Members t ps u)
      (h : Methods (.object ps) u P r) : Formed .object t P r

/-- The methods of an expression, as many as there are. -/
inductive Methods : Stage → String → Condition → String → Prop
  | done {σ : Stage} {t : String} (h : ¬Starts ['.'] t) : Methods σ t σ.condition t
  | call {σ τ : Stage} {t u v r : String} {a : Argument} {P : Condition} (m : Method)
      (ht : t = m.opening ++ u) (ha : Argued m.takes u a v) (hcall : σ.call M m a = some τ)
      (h : Methods τ v P r) : Methods σ t P r

/-- What a method takes, up to its end. -/
inductive Argued : Taking → String → Argument → String → Prop
  | nothing {t : String} : Argued .nothing t .nothing t
  | number {t a r : String} {n : Json.Number} (ha : NumberArgument a n) (ht : t = a ++ r) :
      Argued .number t (.number n) r
  | text {closing t q s r : String} (hq : Literal q s) (ht : t = q ++ (closing ++ r)) :
      Argued (.text closing) t (.text s) r
  | expression {t r : String} {P : Condition} (h : Expression t P (")" ++ r)) :
      Argued .expression t (.condition P) r

/-- Expressions between commas, up to the brackets behind them. -/
inductive Expressions : String → List Condition → String → Prop
  | nil {t r : String} (ht : t = "])" ++ r) : Expressions t [] r
  | one {t r : String} {P : Condition} (h : Expression t P ("])" ++ r)) : Expressions t [P] r
  | cons {t u r : String} {P : Condition} {Ps : List Condition} (h : Expression t P (", " ++ u))
      (h' : Expressions u Ps r) : Expressions t (P :: Ps) r

/-- What stands between the braces of an object, up to their end. -/
inductive Members : String → List (String × Condition) → String → Prop
  | empty {t r : String} (ht : t = "\x7d)" ++ r) : Members t [] r
  | lines {t u r : String} {ps : List (String × Condition)} (ht : t = "\n" ++ u)
      (h : Entries u ps r) : Members t ps r

/-- Names and expressions on lines of their own, up to the brace behind them. -/
inductive Entries : String → List (String × Condition) → String → Prop
  | one {t q name u r : String} {P : Condition} (hq : Literal q name) (ht : t = q ++ (": " ++ u))
      (h : Expression u P ("\n\x7d)" ++ r)) : Entries t [(name, P)] r
  | cons {t q name u v r : String} {P : Condition} {ps : List (String × Condition)}
      (hq : Literal q name) (ht : t = q ++ (": " ++ u)) (h : Expression u P (",\n" ++ v))
      (h' : Entries v ps r) : Entries t ((name, P) :: ps) r

end

/-! ## One rule at each place -/

section Unique

variable {M}

/-- Texts that start differently are different. -/
theorem ne_of_starts {t u : String} {cs ds : List Char} (ht : Starts cs t) (hu : Starts ds u)
    (h : ¬cs <+: ds ∧ ¬ds <+: cs) : t ≠ u := fun heq => (Told.differ (P := False) ht hu h).elim heq

/-- A comma goes on with a list of expressions, and brackets end it. -/
theorem comma_ne_brackets (r s : String) : ", " ++ r ≠ "])" ++ s := by
  have hcomma : Starts [','] (", " ++ r) := by simp [Starts]
  have hbracket : Starts [']'] ("])" ++ s) := by simp [Starts]
  exact ne_of_starts hcomma hbracket (by decide)

/-- A comma goes on with the members of an object, and a brace ends them. -/
theorem comma_ne_brace (r s : String) : ",\n" ++ r ≠ "\n\x7d)" ++ s := by
  have hcomma : Starts [','] (",\n" ++ r) := by simp [Starts]
  have hline : Starts ['\n'] ("\n\x7d)" ++ s) := by simp [Starts]
  exact ne_of_starts hcomma hline (by decide)

/-- The members of an object start with a new line. -/
theorem brace_ne_newline (r s : String) : "\x7d)" ++ r ≠ "\n" ++ s := by
  have hbrace : Starts ['\x7d'] ("\x7d)" ++ r) := by simp [Starts]
  have hline : Starts ['\n'] ("\n" ++ s) := by simp [Starts]
  exact ne_of_starts hbrace hline (by decide)

/-- Methods start with a dot. -/
theorem Method.starts_opening (m : Method) (r : String) : Starts ['.'] (m.opening ++ r) := by
  refine Starts.append ?_ r
  cases m <;> simp [opening, Starts]

/-- Brackets do not start an expression. -/
theorem not_expression_brackets {r s : String} {P : Condition} :
    ¬Expression M ("])" ++ r) P s := by
  rintro ⟨f, ht, -⟩
  have hopening : Starts ['z'] f.opening ∨ Starts ['/'] f.opening := by
    cases f <;> simp [Former.opening, Starts]
  have hbracket : Starts [']'] ("])" ++ r) := by simp [Starts]
  obtain hz | hslash := hopening
  · exact ne_of_starts hbracket (hz.append _) (by decide) ht
  · exact ne_of_starts hbracket (hslash.append _) (by decide) ht

mutual

/-- What an expression stands for and where it ends. -/
theorem Expression.unique {t r s : String} {P Q : Condition} :
    Expression M t P r → Expression M t Q s → P = Q ∧ r = s
  | .start f ht h, .start g ht' h' => by
    obtain ⟨rfl, rfl⟩ := Former.telling rfl rfl _ _ (ht.symm.trans ht')
    exact h.unique h'
  termination_by structural h => h

/-- The same behind a start. -/
theorem Formed.unique {f : Former} {t r s : String} {P Q : Condition} :
    Formed M f t P r → Formed M f t Q s → P = Q ∧ r = s
  | .any h, .any h' => h.unique h'
  | .never h, .never h' => h.unique h'
  | .comment ha ht h, .comment ha' ht' h' => by
    obtain ⟨-, rfl⟩ := telling_commentEnd ha ha' _ _ (ht.symm.trans ht')
    exact h.unique h'
  | .text h, .text h' => h.unique h'
  | .number h, .number h' => h.unique h'
  | .boolean h, .boolean h' => h.unique h'
  | .null h, .null h' => h.unique h'
  | .literal ha ht h, .literal ha' ht' h' => by
    obtain ⟨rfl, rfl⟩ := telling_scalarArgument ha ha' _ _ (ht.symm.trans ht')
    exact h.unique h'
  | .enum ha ht h, .enum ha' ht' h' => by
    obtain ⟨rfl, rfl⟩ := telling_literalsArgument ha ha' _ _ (ht.symm.trans ht')
    exact h.unique h'
  | .union ha h, .union ha' h' => by
    obtain ⟨rfl, rfl⟩ := ha.unique ha'
    exact h.unique h'
  | .intersection ha hb h, .intersection ha' hb' h' => by
    obtain ⟨rfl, hu⟩ := ha.unique ha'
    obtain rfl := (String.append_right_inj _).mp hu
    obtain ⟨rfl, hv⟩ := hb.unique hb'
    obtain rfl := (String.append_right_inj _).mp hv
    exact h.unique h'
  | .array ha h, .array ha' h' => by
    obtain ⟨rfl, hu⟩ := ha.unique ha'
    obtain rfl := (String.append_right_inj _).mp hu
    exact h.unique h'
  | .tuple ha h, .tuple ha' h' => by
    obtain ⟨rfl, rfl⟩ := ha.unique ha'
    exact h.unique h'
  | .object ha h, .object ha' h' => by
    obtain ⟨rfl, rfl⟩ := ha.unique ha'
    exact h.unique h'
  termination_by structural h => h

/-- The same for methods, which go on as long as there is a dot. -/
theorem Methods.unique {σ : Stage} {t r s : String} {P Q : Condition} :
    Methods M σ t P r → Methods M σ t Q s → P = Q ∧ r = s
  | .done _, .done _ => ⟨rfl, rfl⟩
  | .done hdot, .call m ht _ _ _ => (hdot (ht ▸ m.starts_opening _)).elim
  | .call m ht _ _ _, .done hdot => (hdot (ht ▸ m.starts_opening _)).elim
  | .call m ht ha hcall h, .call n ht' ha' hcall' h' => by
    obtain ⟨rfl, rfl⟩ := Method.telling rfl rfl _ _ (ht.symm.trans ht')
    obtain ⟨rfl, rfl⟩ := ha.unique ha'
    obtain rfl := Option.some.inj (hcall.symm.trans hcall')
    exact h.unique h'
  termination_by structural h => h

/-- The same for what a method takes. -/
theorem Argued.unique {taking : Taking} {t r s : String} {a b : Argument} :
    Argued M taking t a r → Argued M taking t b s → a = b ∧ r = s
  | .nothing, .nothing => ⟨rfl, rfl⟩
  | .number ha ht, .number ha' ht' => by
    obtain ⟨rfl, rfl⟩ := telling_numberArgument ha ha' _ _ (ht.symm.trans ht')
    exact ⟨rfl, rfl⟩
  | .text hq ht, .text hq' ht' => by
    obtain ⟨rfl, hrest⟩ := Told.literal hq hq' _ _ (ht.symm.trans ht')
    exact ⟨rfl, (String.append_right_inj _).mp hrest⟩
  | .expression h, .expression h' => by
    obtain ⟨rfl, hrest⟩ := h.unique h'
    exact ⟨rfl, (String.append_right_inj _).mp hrest⟩
  termination_by structural h => h

/-- The same for expressions between commas. -/
theorem Expressions.unique {t r s : String} {Ps Qs : List Condition} :
    Expressions M t Ps r → Expressions M t Qs s → Ps = Qs ∧ r = s
  | .nil ht, .nil ht' => ⟨rfl, (String.append_right_inj _).mp (ht.symm.trans ht')⟩
  | .nil ht, .one h => (not_expression_brackets (ht ▸ h)).elim
  | .nil ht, .cons h _ => (not_expression_brackets (ht ▸ h)).elim
  | .one h, .nil ht => (not_expression_brackets (ht ▸ h)).elim
  | .one h, .one h' => by
    obtain ⟨rfl, hrest⟩ := h.unique h'
    exact ⟨rfl, (String.append_right_inj _).mp hrest⟩
  | .one h, .cons h' _ => (comma_ne_brackets _ _ (h.unique h').2.symm).elim
  | .cons h _, .nil ht => (not_expression_brackets (ht ▸ h)).elim
  | .cons h _, .one h' => (comma_ne_brackets _ _ (h.unique h').2).elim
  | .cons h hs, .cons h' hs' => by
    obtain ⟨rfl, hu⟩ := h.unique h'
    obtain rfl := (String.append_right_inj _).mp hu
    obtain ⟨rfl, rfl⟩ := hs.unique hs'
    exact ⟨rfl, rfl⟩
  termination_by structural h => h

/-- The same for what stands between the braces of an object. -/
theorem Members.unique {t r s : String} {ps qs : List (String × Condition)} :
    Members M t ps r → Members M t qs s → ps = qs ∧ r = s
  | .empty ht, .empty ht' => ⟨rfl, (String.append_right_inj _).mp (ht.symm.trans ht')⟩
  | .empty ht, .lines ht' _ => (brace_ne_newline _ _ (ht.symm.trans ht')).elim
  | .lines ht _, .empty ht' => (brace_ne_newline _ _ (ht'.symm.trans ht)).elim
  | .lines ht h, .lines ht' h' => by
    obtain rfl := (String.append_right_inj _).mp (ht.symm.trans ht')
    exact h.unique h'
  termination_by structural h => h

/-- The same for names and expressions. -/
theorem Entries.unique {t r s : String} {ps qs : List (String × Condition)} :
    Entries M t ps r → Entries M t qs s → ps = qs ∧ r = s
  | .one hq ht h, .one hq' ht' h' => by
    obtain ⟨rfl, hu⟩ := Told.literal hq hq' _ _ (ht.symm.trans ht')
    obtain rfl := (String.append_right_inj _).mp hu
    obtain ⟨rfl, hrest⟩ := h.unique h'
    exact ⟨rfl, (String.append_right_inj _).mp hrest⟩
  | .one hq ht h, .cons hq' ht' h' _ => by
    obtain ⟨rfl, hu⟩ := Told.literal hq hq' _ _ (ht.symm.trans ht')
    obtain rfl := (String.append_right_inj _).mp hu
    exact (comma_ne_brace _ _ (h.unique h').2.symm).elim
  | .cons hq ht h _, .one hq' ht' h' => by
    obtain ⟨rfl, hu⟩ := Told.literal hq hq' _ _ (ht.symm.trans ht')
    obtain rfl := (String.append_right_inj _).mp hu
    exact (comma_ne_brace _ _ (h.unique h').2).elim
  | .cons hq ht h hs, .cons hq' ht' h' hs' => by
    obtain ⟨rfl, hu⟩ := Told.literal hq hq' _ _ (ht.symm.trans ht')
    obtain rfl := (String.append_right_inj _).mp hu
    obtain ⟨rfl, hv⟩ := h.unique h'
    obtain rfl := (String.append_right_inj _).mp hv
    obtain ⟨rfl, rfl⟩ := hs.unique hs'
    exact ⟨rfl, rfl⟩
  termination_by structural h => h

end

end Unique

end Promptwright.Zod
