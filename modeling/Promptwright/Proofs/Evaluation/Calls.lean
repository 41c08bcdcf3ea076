import Promptwright.Evaluation.Run
import Promptwright.Proofs.Document.JsonTexts

/-!
# Checks for calls

A check for calls goes over the calls of an answer and the expected ones side by side, and compares
their names and their arguments.  Arguments that are a text with JSON in it stand for the value of the
JSON, in whatever layout it is written.  The arguments of expected calls always stand for themselves,
so a call can never meet an expected one whose arguments are such a text.

Neither these checks nor those for values depend on the order of members.

## Key results

- `ArgumentsAre`: what the arguments of a call stand for
- `isMetBy_iff`, `allMetBy_iff`: when calls are the expected ones
- `allMetBy_reordered`: the order of members does not matter
- `comparison_ignores_order`: neither does it for any check that compares values
- `restatedCalls_succeed_iff`: arguments may be written as texts
- `exactCalls_succeed_iff`: when the very calls that are expected meet a check
-/

namespace Promptwright

variable {Code : Type} [CustomCode Code]

open Json (Number)

/-! ## Arguments -/

/-- Reordering leaves strings as they are, and makes no others. -/
theorem Json.Reordered.eq_string_iff {a b : Json} (h : a.Reordered b) (s : String) :
    a = .string s ↔ b = .string s := by
  induction h with
  | refl => exact Iff.rfl
  | trans _ _ ih ih' => exact ih.trans ih'
  | permute | item | member => simp

namespace ToolCall

variable {c c' : ToolCall} {j : Json}

/-- What the arguments of a call stand for: the value of the JSON that they hold as a text, or else
themselves. -/
inductive ArgumentsAre (c : ToolCall) : Json → Prop
  | value {j : Json} (h : c.arguments = j) (hj : ∀ t, j ≠ .string t) : ArgumentsAre c j
  | json {t : String} {j : Json} (h : c.arguments = .string t) (hj : Json.ofText? t = some j) :
      ArgumentsAre c j
  | plain {t : String} (h : c.arguments = .string t) (hnone : Json.ofText? t = none) :
      ArgumentsAre c (.string t)

/-- The arguments of a call stand for one value. -/
theorem argumentsAre_iff : c.ArgumentsAre j ↔ c.argumentValue = j := by
  unfold argumentValue
  constructor
  -- which of the three forms it is depends on the arguments alone
  · intro h
    cases h with
    | value h hj =>
      rw [h]
      split
      · exact absurd rfl (hj _)
      · rfl
    | json h hj => simp only [h, hj, Option.getD_some]
    | plain h hnone => simp only [h, hnone, Option.getD_none]
  · rintro rfl
    split
    · next t ht =>
      cases hj : Json.ofText? t with
      | none => exact .plain ht hj
      | some j => exact .json ht hj
    · next hne => exact .value rfl hne

/-- Arguments stand for a value. -/
theorem argumentsAre_argumentValue (c : ToolCall) : c.ArgumentsAre c.argumentValue :=
  argumentsAre_iff.mpr rfl

/-- Arguments stand for values that documents can hold. -/
theorem ArgumentsAre.wellFormed (h : c.ArgumentsAre j) (hc : c.arguments.WellFormed) :
    j.WellFormed := by
  cases h with
  | value h _ => exact h ▸ hc
  | json _ hj => exact Json.wellFormed_of_ofText? hj
  | plain h _ => exact h ▸ hc

/-- Reordered arguments stand for reordered values. -/
theorem argumentValue_reordered (h : c.arguments.Reordered c'.arguments) :
    c.argumentValue.Reordered c'.argumentValue := by
  unfold argumentValue
  -- texts are not reordered, and are not made from other values
  by_cases hstring : ∃ t, c.arguments = .string t
  · obtain ⟨t, ht⟩ := hstring
    rw [ht, (h.eq_string_iff t).mp ht]
    exact .refl _
  · split
    · next t ht => exact absurd ⟨t, ht⟩ hstring
    · split
      · next t ht => exact absurd ⟨t, (h.eq_string_iff t).mpr ht⟩ hstring
      · exact h

end ToolCall

/-! ## Meeting expected calls -/

section Meeting

variable {e e' : ExpectedCall} {c c' : ToolCall} {es es' : List ExpectedCall}
  {cs cs' : List ToolCall}

/-- The same call is expected, up to the order of members. -/
def ExpectedCall.Reordered (e e' : ExpectedCall) : Prop :=
  e'.tool = e.tool ∧ e.arguments.Reordered e'.arguments

/-- The same call, up to the order of members, perhaps of those that the arguments hold as a text. -/
def ToolCall.Reordered (c c' : ToolCall) : Prop :=
  c'.name = c.name ∧
    (c.arguments.Reordered c'.arguments ∨ c.argumentValue.Reordered c'.argumentValue)

/-- Two calls have the same name, and arguments that stand for the same value up to the order of
members. -/
def ToolCall.Alike (c c' : ToolCall) : Prop :=
  c'.name = c.name ∧ c.argumentValue.Reordered c'.argumentValue

/-- Reordered calls are alike. -/
theorem ToolCall.Reordered.alike (h : c.Reordered c') : c.Alike c' :=
  ⟨h.1, h.2.elim argumentValue_reordered fun hvalue => hvalue⟩

namespace ExpectedCall

/-- A call agrees with an expected one in its name, and in what its arguments stand for. -/
def Agrees (e : ExpectedCall) (c : ToolCall) : Prop :=
  e.tool = c.name ∧ ∃ j, c.ArgumentsAre j ∧ e.arguments.EqualUpTo Number.Same j

/-- A call is the expected one if it agrees with it. -/
theorem isMetBy_iff (he : e.arguments.WellFormed) (hc : c.arguments.WellFormed) :
    e.isMetBy c = true ↔ e.Agrees c := by
  have hvalue : c.ArgumentsAre c.argumentValue := c.argumentsAre_argumentValue
  rw [isMetBy, Bool.and_eq_true, beq_iff_eq, Json.same_iff_equalUpTo he (hvalue.wellFormed hc)]
  constructor
  · rintro ⟨hname, hequal⟩
    exact ⟨hname, _, hvalue, hequal⟩
  · rintro ⟨hname, j, hj, hequal⟩
    obtain rfl := ToolCall.argumentsAre_iff.mp hj
    exact ⟨hname, hequal⟩

/-- Calls are the expected ones if they agree with them side by side. -/
theorem allMetBy_iff (hes : ∀ e ∈ es, e.arguments.WellFormed)
    (hcs : ∀ c ∈ cs, c.arguments.WellFormed) :
    allMetBy es cs = true ↔ List.Forall₂ Agrees es cs := by
  induction es generalizing cs with
  | nil => cases cs <;> simp [allMetBy]
  | cons e es ih =>
    cases cs with
    | nil => simp [allMetBy]
    | cons c cs =>
      rw [List.forall_mem_cons] at hes hcs
      rw [allMetBy, Bool.and_eq_true, isMetBy_iff hes.1 hcs.1, ih hes.2 hcs.2,
        List.forall₂_cons]

/-- Whether a call is the expected one does not depend on the order of members. -/
theorem isMetBy_reordered (he : e.arguments.WellFormed) (hc : c.arguments.WellFormed)
    (h : e.Reordered e') (h' : c.Alike c') : e'.isMetBy c' = e.isMetBy c := by
  have hvalue : c.argumentValue.WellFormed := c.argumentsAre_argumentValue.wellFormed hc
  obtain ⟨htool, harguments⟩ := h
  obtain ⟨hname, hvalues⟩ := h'
  rw [isMetBy, isMetBy, htool, hname, Json.same_reordered he hvalue harguments hvalues]

/-- Whether calls are the expected ones does not depend on the order of members. -/
theorem allMetBy_reordered (h : List.Forall₂ Reordered es es')
    (h' : List.Forall₂ ToolCall.Alike cs cs') (hes : ∀ e ∈ es, e.arguments.WellFormed)
    (hcs : ∀ c ∈ cs, c.arguments.WellFormed) : allMetBy es' cs' = allMetBy es cs := by
  -- along the expected calls, with a call beside each
  induction h generalizing cs cs' with
  | nil => cases h' <;> rfl
  | cons he _ ih =>
    cases h' with
    | nil => rfl
    | cons hc h' =>
      rw [List.forall_mem_cons] at hes hcs
      rw [allMetBy, allMetBy, isMetBy_reordered hes.1 hcs.1 he hc, ih h' hes.2 hcs.2]

end ExpectedCall

end Meeting

/-! ## The order of members -/

namespace CheckKind

/-- The values that a check compares with. -/
def expectedValues : CheckKind → List Json
  | .toolCalls calls => calls.map ExpectedCall.arguments
  | .structuredOutput result => [result]
  | _ => []

/-- The same check for calls or for a value, up to the order of members. -/
inductive Reordered : CheckKind → CheckKind → Prop
  | toolCalls {es es' : List ExpectedCall} (h : List.Forall₂ ExpectedCall.Reordered es es') :
      Reordered (.toolCalls es) (.toolCalls es')
  | structuredOutput {j j' : Json} (h : j.Reordered j') :
      Reordered (.structuredOutput j) (.structuredOutput j')

end CheckKind

namespace Completion

/-- The values in an answer. -/
def values : Completion → List Json
  | .text _ calls => calls.map ToolCall.arguments
  | .structured value => [value]

/-- The same answer, up to the order of members. -/
inductive Reordered : Completion → Completion → Prop
  | text {cs cs' : List ToolCall} (text : String) (h : List.Forall₂ ToolCall.Reordered cs cs') :
      Reordered (.text text cs) (.text text cs')
  | structured {j j' : Json} (h : j.Reordered j') : Reordered (.structured j) (.structured j')

variable {completion completion' : Completion}

/-- Reordered answers are reordered values. -/
theorem Reordered.toJson (h : completion.Reordered completion') :
    completion.toJson.Reordered completion'.toJson := by
  cases h with
  | text text _ => exact .refl _
  | structured h => exact h

/-- An answer is a value that documents can hold, if the values in it are. -/
theorem wellFormed_toJson (h : ∀ j ∈ completion.values, j.WellFormed) :
    completion.toJson.WellFormed := by
  cases completion with
  | text _ _ => trivial
  | structured j => exact h j (List.mem_singleton_self j)

end Completion

/-- A check for calls or for a value has the same success on the same answer, up to the order of
members. -/
theorem run_reordered {kind kind' : CheckKind} {completion completion' : Completion}
    (hkind : kind.Reordered kind') (hcompletion : completion.Reordered completion')
    (hexpected : ∀ j ∈ kind.expectedValues, j.WellFormed)
    (hanswer : ∀ j ∈ completion.values, j.WellFormed) (name : Option String) (ctx : Context Code) :
    ∃ r r', Check.run ⟨name, kind⟩ completion ctx = .ok r ∧
      Check.run ⟨name, kind'⟩ completion' ctx = .ok r' ∧ r'.success = r.success := by
  cases hkind with
  | structuredOutput h =>
    refine ⟨_, _, rfl, rfl, ?_⟩
    exact Json.same_reordered (Completion.wellFormed_toJson hanswer)
      (hexpected _ (List.mem_singleton_self _)) hcompletion.toJson h
  | toolCalls h =>
    refine ⟨_, _, rfl, rfl, ?_⟩
    cases hcompletion with
    | structured _ => rfl
    | text text hcalls =>
      -- the calls of both answers are in one order, each with the members of its arguments in
      -- another
      have halike := hcalls.imp fun _ _ => ToolCall.Reordered.alike
      exact ExpectedCall.allMetBy_reordered h halike (List.forall_mem_map.mp hexpected)
        (List.forall_mem_map.mp hanswer)

/-- Values compare as they do in another order, on either side, and the other way round.  So do checks
for calls and for values: the order of members changes nothing on the side of what is expected, nor in
the answer. -/
theorem comparison_ignores_order {a a' b b' : Json} (ha : a.WellFormed) (hb : b.WellFormed)
    (haa' : a.Reordered a') (hbb' : b.Reordered b') :
    (a'.same b' = a.same b ∧ a.same b = b.same a ∧ a.same a' = true) ∧
      ∀ (Code : Type) [CustomCode Code] (kind kind' : CheckKind)
        (completion completion' : Completion) (name : Option String) (ctx : Context Code),
        kind.Reordered kind' → completion.Reordered completion' →
        (∀ j ∈ kind.expectedValues, j.WellFormed) → (∀ j ∈ completion.values, j.WellFormed) →
          ∃ r r', Check.run ⟨name, kind⟩ completion ctx = .ok r ∧
            Check.run ⟨name, kind'⟩ completion' ctx = .ok r' ∧ r'.success = r.success := by
  refine ⟨⟨Json.same_reordered ha hb haa' hbb', Json.same_comm ha hb,
    Json.same_of_reordered ha haa'⟩, ?_⟩
  intro Code _ kind kind' completion completion' name ctx hkind hcompletion hexpected hanswer
  exact run_reordered hkind hcompletion hexpected hanswer name ctx

/-- A trip with a stop. -/
def trip : Json :=
  .object [("from", .string "Oslo"),
    ("stops", .array [.object [("city", .string "Bergen"), ("nights", .int 2)]])]

/-- The same trip, with its members and those of its stop the other way round. -/
def turnedTrip : Json :=
  .object [("stops", .array [.object [("nights", .int 2), ("city", .string "Bergen")]]),
    ("from", .string "Oslo")]

/-- The trip and the turned one are the same, and a check for a call with one of them succeeds on a
call with the other. -/
theorem comparison_ignores_order_trip :
    trip.same turnedTrip = true ∧
      ∃ r r', Check.run ⟨none, .toolCalls [⟨"book", trip⟩]⟩
          (.text "" [⟨"1", "book", turnedTrip⟩]) .bare = .ok r ∧
        Check.run ⟨none, .toolCalls [⟨"book", turnedTrip⟩]⟩
          (.text "" [⟨"1", "book", trip⟩]) .bare = .ok r' ∧
        r.success = true ∧ r'.success = true := by
  have htrip : trip.WellFormed :=
    ⟨by decide, trivial, ⟨⟨by decide, trivial, trivial, trivial⟩, trivial⟩, trivial⟩
  have hturned : trip.Reordered turnedTrip :=
    .trans (.member [("from", .string "Oslo")] [] "stops" (.item [] [] (.permute (.swap _ _ []))))
      (.permute (.swap _ _ []))
  have hback : turnedTrip.Reordered trip :=
    .trans (.permute (.swap _ _ []))
      (.member [("from", .string "Oslo")] [] "stops" (.item [] [] (.permute (.swap _ _ []))))
  have hturnedTrip : turnedTrip.WellFormed := hturned.wellFormed htrip
  obtain ⟨⟨-, -, hsame⟩, hchecks⟩ := comparison_ignores_order htrip htrip hturned hturned
  obtain ⟨r, r', hr, hr', hsuccess⟩ := hchecks Empty (.toolCalls [⟨"book", trip⟩])
    (.toolCalls [⟨"book", turnedTrip⟩]) (.text "" [⟨"1", "book", turnedTrip⟩])
    (.text "" [⟨"1", "book", trip⟩]) none .bare (.toolCalls (.cons ⟨rfl, hturned⟩ .nil))
    (.text "" (.cons ⟨rfl, .inl hback⟩ .nil)) (List.forall_mem_singleton.mpr htrip)
    (List.forall_mem_singleton.mpr hturnedTrip)
  have hfirst : r.success = true := by
    cases hr
    decide +kernel
  exact ⟨hsame, r, r', hr, hr', hfirst, hsuccess.trans hfirst⟩

/-! ## Arguments as texts -/

/-- A call as it is, or with its arguments as a text: the JSON of their value in any layout and with
its members in any order, not nested more deeply than the reader goes. -/
inductive ToolCall.Restated (c : ToolCall) : ToolCall → Prop
  | same : Restated c c
  | text {j : Json} {t : String} (h : ∀ s, c.arguments ≠ .string s)
      (hj : c.arguments.Reordered j) (hdepth : j.nesting ≤ JsonText.maxDepth)
      (ht : JsonText.Padded j.Layout t.toList) : Restated c { c with arguments := .string t }

/-- Arguments stand for the same value when they are written as a text. -/
theorem ToolCall.Restated.alike {c c' : ToolCall} (h : c.Restated c') (hc : c.arguments.WellFormed) :
    c.Alike c' := by
  cases h with
  | same => exact ⟨rfl, .refl _⟩
  | @text j t h hj hdepth ht =>
    have htext : Json.ofText? t = some j := Json.ofText?_of_layout (hj.wellFormed hc) hdepth ht
    have hvalue : c.argumentValue = c.arguments := argumentsAre_iff.mp (.value rfl h)
    have hvalue' : { c with arguments := .string t }.argumentValue = j :=
      argumentsAre_iff.mp (.json rfl htext)
    refine ⟨rfl, ?_⟩
    rw [hvalue, hvalue']
    exact hj

/-- Calls may have any of their arguments as a text instead of a value: a check for calls succeeds on
them just if it does on the calls with values.  It does if the calls are as many as the expected ones
and agree with them one by one. -/
theorem restatedCalls_succeed_iff {expected : List ExpectedCall} {calls calls' : List ToolCall}
    (hexpected : ∀ e ∈ expected, e.arguments.WellFormed)
    (hcalls : ∀ c ∈ calls, c.arguments.WellFormed) (h : List.Forall₂ ToolCall.Restated calls calls')
    (name : Option String) (text : String) (ctx : Context Code) :
    ∃ r r', Check.run ⟨name, .toolCalls expected⟩ (.text text calls) ctx = .ok r ∧
      Check.run ⟨name, .toolCalls expected⟩ (.text text calls') ctx = .ok r' ∧
      r'.success = r.success ∧
      (r.success = true ↔ List.Forall₂ ExpectedCall.Agrees expected calls) := by
  have hself : List.Forall₂ ExpectedCall.Reordered expected expected :=
    List.forall₂_same.mpr fun e _ => ⟨rfl, .refl _⟩
  have halike : List.Forall₂ ToolCall.Alike calls calls' :=
    forall₂_imp_of_mem h fun c hc c' hrestated => hrestated.alike (hcalls c hc)
  refine ⟨_, _, rfl, rfl, ?_, ExpectedCall.allMetBy_iff hexpected hcalls⟩
  exact ExpectedCall.allMetBy_reordered hself halike hexpected hcalls

/-- A stay in a city. -/
def stay : Json := .object [("city", .string "Oslo"), ("nights", .int 2)]

/-- The same stay, with its members the other way round. -/
def turnedStay : Json := .object [("nights", .int 2), ("city", .string "Oslo")]

/-- A text of the stay, with white space and an escaped character. -/
def stayText : String := " \x7b\"nights\": 2, \"c\\u0069ty\" :\"Oslo\"\x7d\n"

/-- The text is one of the turned stay. -/
theorem padded_stayText : JsonText.Padded turnedStay.Layout stayText.toList := by
  -- the two members, part by part
  have hnights : JsonText.Keyed "nights" (Json.int 2).Layout "\"nights\": 2".toList :=
    ⟨"\"nights\"".toList, [' ', '2'], by decide,
      ⟨[], _, [], rfl, by decide, ⟨"nights".toList, rfl, JsonText.body_self (by decide)⟩, by decide⟩,
      ⟨[' '], ['2'], [], rfl, by decide, rfl, by decide⟩⟩
  have hcode : JsonText.HexDigits 'i'.toNat ['0', '0', '6', '9'] :=
    .mk (i := 0) (j := 0) (k := 6) (l := 9) rfl rfl rfl rfl
  have hrest : JsonText.Body ['t', 'y'] ['t', 'y'] := JsonText.body_self (by decide)
  have hkey : JsonText.Body "city".toList "c\\u0069ty".toList :=
    .plain (by decide) (by decide) (by decide) (.unit hcode hrest)
  have hcity : JsonText.Keyed "city" (Json.string "Oslo").Layout
      " \"c\\u0069ty\" :\"Oslo\"".toList :=
    ⟨" \"c\\u0069ty\" ".toList, "\"Oslo\"".toList, by decide,
      ⟨[' '], _, [' '], by decide, by decide, ⟨_, rfl, hkey⟩, by decide⟩,
      ⟨[], _, [], by decide, by decide, ⟨_, rfl, JsonText.body_self (by decide)⟩, by decide⟩⟩
  exact ⟨[' '], _, ['\n'], by decide, by decide,
    ⟨_, rfl, _, _, rfl, hnights, hcity⟩, by decide⟩

/-- A call for the stay may have its arguments as the text. -/
theorem restatedCalls_succeed_iff_stay :
    ∃ r r', Check.run ⟨none, .toolCalls [⟨"book", stay⟩]⟩ (.text "" [⟨"1", "book", stay⟩]) .bare = .ok r ∧
      Check.run ⟨none, .toolCalls [⟨"book", stay⟩]⟩
        (.text "" [⟨"1", "book", .string stayText⟩]) .bare = .ok r' ∧
      r.success = true ∧ r'.success = true := by
  have hstay : stay.WellFormed := ⟨by decide, trivial, trivial, trivial⟩
  have hexpected : ∀ e ∈ [(⟨"book", stay⟩ : ExpectedCall)], e.arguments.WellFormed :=
    List.forall_mem_singleton.mpr hstay
  have hrestated : ToolCall.Restated ⟨"1", "book", stay⟩ ⟨"1", "book", .string stayText⟩ :=
    .text nofun (.permute (.swap _ _ [])) (by decide) padded_stayText
  obtain ⟨r, r', hr, hr', hsame, hagrees⟩ := restatedCalls_succeed_iff hexpected
    (List.forall_mem_singleton.mpr hstay) (.cons hrestated .nil) none "" Context.bare
  have hself : stay.EqualUpTo Number.Same stay :=
    Json.EqualUpTo.refl (fun _ => Number.same_self) stay hstay
  have hfirst : r.success = true :=
    hagrees.mpr (.cons ⟨rfl, stay, .value rfl nofun, hself⟩ .nil)
  exact ⟨r, r', hr, hr', hfirst, hsame.trans hfirst⟩

/-! ## The very calls that are expected -/

/-- The text of a value is not the value. -/
theorem Json.same_string_eq_false {t : String} {j : Json} (h : ofText? t = some j) :
    (Json.string t).same j = false := by
  cases j with
  | string s =>
    have hne : t ≠ s := by
      rintro rfl
      exact ofText?_ne_string_self t h
    simpa [same] using hne
  | null | bool _ | number _ | array _ | object _ => rfl

/-- A call has the very name and the very arguments that are expected. -/
def ExpectedCall.IsMade (e : ExpectedCall) (c : ToolCall) : Prop :=
  c.name = e.tool ∧ c.arguments = e.arguments

/-- The very call that is expected is taken for it, unless its arguments are a text that stands for
another value. -/
theorem ExpectedCall.isMetBy_of_isMade {e : ExpectedCall} {c : ToolCall}
    (he : e.arguments.WellFormed) (h : e.IsMade c) :
    e.isMetBy c = true ↔ ∀ t, e.arguments = .string t → Json.ofText? t = none := by
  obtain ⟨hname, harguments⟩ := h
  have hself : e.arguments.same e.arguments = true := Json.same_of_reordered he (.refl _)
  have hvalue := c.argumentsAre_argumentValue
  rw [isMetBy, hname, beq_self_eq_true, Bool.true_and]
  generalize c.argumentValue = j at hvalue
  cases hvalue with
  | value h hj =>
    obtain rfl : e.arguments = j := harguments.symm.trans h
    exact iff_of_true hself fun t ht => absurd ht (hj t)
  | @json t _ h hj =>
    -- here the text itself is expected, and what it holds is compared with it
    have ht : e.arguments = .string t := harguments.symm.trans h
    rw [ht, Json.same_string_eq_false hj]
    refine iff_of_false nofun fun hnone => ?_
    rw [hnone t rfl] at hj
    cases hj
  | @plain t h hnone =>
    have ht : e.arguments = .string t := harguments.symm.trans h
    rw [ht] at hself ⊢
    refine iff_of_true hself fun t' ht' => ?_
    cases ht'
    exact hnone

/-- On the very calls that it expects, with any names and arguments, a check for calls succeeds just if
none of the expected arguments is a text with JSON in it.  Such a text is compared with the value of
the JSON, which is another one. -/
theorem exactCalls_succeed_iff {expected : List ExpectedCall} {calls : List ToolCall}
    (hexpected : ∀ e ∈ expected, e.arguments.WellFormed)
    (h : List.Forall₂ ExpectedCall.IsMade expected calls) (name : Option String) (text : String)
    (ctx : Context Code) :
    ∃ r, Check.run ⟨name, .toolCalls expected⟩ (.text text calls) ctx = .ok r ∧
      (r.success = true ↔
        ∀ e ∈ expected, ∀ t, e.arguments = .string t → Json.ofText? t = none) := by
  refine ⟨_, rfl, ?_⟩
  show ExpectedCall.allMetBy expected calls = true ↔ _
  induction h with
  | nil => simp [ExpectedCall.allMetBy]
  | cons hc _ ih =>
    rw [List.forall_mem_cons] at hexpected
    rw [ExpectedCall.allMetBy, Bool.and_eq_true, List.forall_mem_cons, ih hexpected.2,
      ExpectedCall.isMetBy_of_isMade hexpected.1 hc]

/-- Two expected calls, one with a value and one with a text that is no JSON. -/
def bookAndGreet : List ExpectedCall := [⟨"book", stay⟩, ⟨"greet", .string "Oslo"⟩]

/-- They are met by the very calls. -/
theorem exactCalls_succeed_iff_bookAndGreet :
    ∃ r, Check.run ⟨none, .toolCalls bookAndGreet⟩
        (.text "" [⟨"1", "book", stay⟩, ⟨"2", "greet", .string "Oslo"⟩]) .bare = .ok r ∧
      r.success = true := by
  have hstay : stay.WellFormed := ⟨by decide, trivial, trivial, trivial⟩
  have hexpected : ∀ e ∈ bookAndGreet, e.arguments.WellFormed :=
    List.forall_mem_cons.mpr ⟨hstay, List.forall_mem_singleton.mpr trivial⟩
  have hmade : List.Forall₂ ExpectedCall.IsMade bookAndGreet
      [⟨"1", "book", stay⟩, ⟨"2", "greet", .string "Oslo"⟩] :=
    .cons ⟨rfl, rfl⟩ (.cons ⟨rfl, rfl⟩ .nil)
  have hplain : Json.ofText? "Oslo" = none := by decide +kernel
  obtain ⟨r, hr, hsuccess⟩ := exactCalls_succeed_iff hexpected hmade none "" Context.bare
  refine ⟨r, hr, hsuccess.mpr ?_⟩
  rw [bookAndGreet, List.forall_mem_cons, List.forall_mem_singleton]
  refine ⟨nofun, fun t ht => ?_⟩
  cases ht
  exact hplain

/-- A text that holds JSON. -/
def cityText : String := "\x7b\"city\":\"Oslo\"\x7d"

/-- An expected call with such a text is not met by the very call. -/
theorem exactCalls_fail_on_json :
    (∀ e ∈ [(⟨"book", .string cityText⟩ : ExpectedCall)], e.arguments.WellFormed) ∧
      List.Forall₂ ExpectedCall.IsMade [⟨"book", .string cityText⟩]
        [⟨"1", "book", .string cityText⟩] ∧
      ∃ r, Check.run ⟨none, .toolCalls [⟨"book", .string cityText⟩]⟩
          (.text "" [⟨"1", "book", .string cityText⟩]) .bare = .ok r ∧ r.success = false :=
  ⟨List.forall_mem_singleton.mpr trivial, .cons ⟨rfl, rfl⟩ .nil, _, rfl, by decide +kernel⟩

end Promptwright
