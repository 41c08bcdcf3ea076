import Promptwright.Evaluation.Run

/-!
# Checks that a model grades

A check that a model grades puts one question to the judge, or none if there is no model to grade
with or no judge.  It succeeds on a favourable answer only.  A model that is missing or out of reach
fails the check, and everything else that goes wrong is an error of the judge.

How often the judge is asked cannot be seen from what becomes of a check.  So a check is also run with
a way to ask that notes every question.

## Key results

- `resolveModel_eq_some_iff`: the model that grades
- `noted_fst`: to note the questions does not change what becomes of a check
- `consults_cases`: whether there is a question for the judge
- `noted_of_consults`: a check comes to what follows from the answer to one question
- `noted_of_no_model`, `noted_of_no_judge`: otherwise nothing is asked
- `run_graded_cases`: what can become of a check
- `graded_fails_closed`: what becomes of a graded check, whatever the judge
-/

namespace Promptwright

/-! ## The model that grades -/

/-- A model grades a check: the one that the check names, or else the default one.  An empty name
names no model. -/
def Grades (ofCheck default : Option String) (model : String) : Prop :=
  model ≠ "" ∧
    (ofCheck = some model ∨ (ofCheck = none ∨ ofCheck = some "") ∧ default = some model)

/-- The names in an option that are not empty. -/
theorem filter_named_eq_some_iff {o : Option String} {name : String} :
    o.filter (!·.isEmpty) = some name ↔ o = some name ∧ name ≠ "" := by
  simp [Option.filter_eq_some_iff]

/-- There is no such name. -/
theorem filter_named_eq_none_iff {o : Option String} :
    o.filter (!·.isEmpty) = none ↔ o = none ∨ o = some "" := by
  cases o <;> simp [Option.filter_eq_none_iff]

section Model

variable {ofCheck default : Option String} {model : String}

/-- The model that is resolved is the one that grades. -/
theorem resolveModel_eq_some_iff :
    resolveModel ofCheck default = some model ↔ Grades ofCheck default model := by
  have hfind : ∀ o : Option String, o.toList.find? (!·.isEmpty) = o.filter (!·.isEmpty) := by
    intro o
    cases o <;> simp [Option.filter]
  unfold resolveModel Grades
  rw [List.find?_append, hfind, hfind, Option.or_eq_some_iff, filter_named_eq_some_iff,
    filter_named_eq_none_iff, filter_named_eq_some_iff]
  constructor
  · rintro (⟨hmodel, hname⟩ | ⟨hno, hmodel, hname⟩)
    · exact ⟨hname, .inl hmodel⟩
    · exact ⟨hname, .inr ⟨hno, hmodel⟩⟩
  · rintro ⟨hname, hmodel | ⟨hno, hmodel⟩⟩
    · exact .inl ⟨hmodel, hname⟩
    · exact .inr ⟨hno, hmodel, hname⟩

/-- No model is resolved if none grades. -/
theorem resolveModel_eq_none_iff :
    resolveModel ofCheck default = none ↔ ∀ model, ¬ Grades ofCheck default model := by
  simp only [Option.eq_none_iff_forall_ne_some, ne_eq, resolveModel_eq_some_iff]

end Model

/-! ## Graded tasks -/

namespace GradedTask

/-- The kind of check for a task. -/
def kind : GradedTask → Option String → CheckKind
  | .profanity forbidden, model => .profanity model forbidden
  | .aligned instructions, model => .aligned model instructions

/-- The check for a task. -/
abbrev check (task : GradedTask) (ofCheck name : Option String) : Check := ⟨name, task.kind ofCheck⟩

variable {task : GradedTask}

/-- A model that the judge cannot reach is no error. -/
theorem conclude_ne_unknownModel {name model m : String} {answer : Except CheckError Bool} :
    task.conclude name model answer ≠ .error (.unknownModel m) := by
  cases answer with
  | ok found => exact nofun
  | error e => cases e <;> simp [conclude]

/-- The code of a check is missing only if the judge says so. -/
theorem conclude_eq_unknownCheck_iff {name model id : String} {answer : Except CheckError Bool} :
    task.conclude name model answer = .error (.unknownCheck id) ↔
      answer = .error (.unknownCheck id) := by
  cases answer with
  | ok found => simp [conclude]
  | error e => cases e <;> simp [conclude]

/-- Only a favourable answer makes a check succeed. -/
theorem exists_of_conclude_eq_ok {name model : String} {answer : Except CheckError Bool}
    {r : CheckResult} (h : task.conclude name model answer = .ok r) (hr : r.success = true) :
    ∃ b, answer = .ok b ∧ task.passes b = true := by
  cases answer with
  | ok b =>
    cases h
    exact ⟨b, rfl, hr⟩
  | error e =>
    cases e with
    | unknownModel m =>
      cases h
      cases hr
    | unknownCheck id => cases h
    | judge reason => cases h

end GradedTask

/-! ## Ways to ask -/

section Asking

variable {m : Type → Type} [Monad m] (ask : Asking m) {g : Grading} (task : GradedTask) (name : String)
  {ofCheck : Option String} {model : String} (output : String)

/-- Without a model the check fails. -/
theorem runGraded_of_no_model (h : ∀ model, ¬ Grades ofCheck g.defaultModel model) :
    runGraded ask g task name ofCheck output = pure (.ok (modelUnavailable name none)) := by
  simp only [runGraded, resolveModel_eq_none_iff.mpr h]

/-- With a model and no judge there is an error. -/
theorem runGraded_of_no_judge (h : Grades ofCheck g.defaultModel model) (hjudge : g.judge = none) :
    runGraded ask g task name ofCheck output =
      pure (.error (.judge "no judge configured for model-graded checks")) := by
  simp only [runGraded, resolveModel_eq_some_iff.mpr h, hjudge]

/-- With a model and a judge there is one question, and the check comes to what follows from the
answer. -/
theorem runGraded_of_judge {judge : Judge} (h : Grades ofCheck g.defaultModel model)
    (hjudge : g.judge = some judge) :
    runGraded ask g task name ofCheck output = do
      return task.conclude name model (← ask judge ⟨task, model, output⟩) := by
  simp only [runGraded, resolveModel_eq_some_iff.mpr h, hjudge]

end Asking

/-- Asks and notes the question. -/
def Asking.noting : Asking (StateM (List Question)) := fun judge q =>
  modifyGet fun asked => (judge.answer q, asked ++ [q])

section Check

variable {Code : Type} [CustomCode Code]

/-- What becomes of a check, and the questions that it asks. -/
def Check.noted (check : Check) (completion : Completion) (ctx : Context Code) :
    Except CheckError CheckResult × List Question :=
  StateT.run (check.runIn Asking.noting completion ctx) []

/-- A check for a task is run by asking a model. -/
theorem GradedTask.runIn_check {m : Type → Type} [Monad m] (ask : Asking m) (task : GradedTask)
    (ofCheck name : Option String) (completion : Completion) (ctx : Context Code) :
    (task.check ofCheck name).runIn ask completion ctx =
      runGraded ask ctx.grading task (task.check ofCheck name).displayName ofCheck
        completion.asText := by
  cases task <;> rfl

/-- To note the questions does not change what becomes of a check that a model grades. -/
theorem runGraded_noting_fst (g : Grading) (task : GradedTask) (name : String)
    (ofCheck : Option String) (output : String) :
    (StateT.run (runGraded Asking.noting g task name ofCheck output) []).1 =
      runGraded Asking.plain g task name ofCheck output := by
  unfold runGraded
  split
  · rfl
  · split <;> rfl

/-- To note the questions does not change what becomes of a check. -/
theorem Check.noted_fst (check : Check) (completion : Completion) (ctx : Context Code) :
    (check.noted completion ctx).1 = check.run completion ctx := by
  obtain ⟨name, kind⟩ := check
  cases kind with
  | profanity model forbidden => exact runGraded_noting_fst ..
  | aligned model instructions => exact runGraded_noting_fst ..
  | custom id model options =>
    simp only [noted, run, runIn]
    cases ctx.custom? id <;> rfl
  | _ => rfl

end Check

/-! ## What becomes of a graded check -/

namespace GradedTask

variable {Code : Type} {task : GradedTask} {ofCheck : Option String} (name : Option String)
  {completion : Completion} {ctx : Context Code} {judge : Judge} {q : Question} {model : String}

/-- A judge is asked a question: it is there, and the question is whether the answer passes, put to the
model that grades. -/
def Consults (task : GradedTask) (ofCheck : Option String) (completion : Completion)
    (ctx : Context Code) (judge : Judge) (q : Question) : Prop :=
  ctx.grading.judge = some judge ∧
    ∃ model, Grades ofCheck ctx.grading.defaultModel model ∧ q = ⟨task, model, completion.asText⟩

/-- Either no model grades, or there is no judge, or the judge is asked a question. -/
theorem consults_cases (task : GradedTask) (ofCheck : Option String) (completion : Completion)
    (ctx : Context Code) :
    (∀ model, ¬ Grades ofCheck ctx.grading.defaultModel model) ∨
      (∃ model, Grades ofCheck ctx.grading.defaultModel model ∧ ctx.grading.judge = none) ∨
      ∃ judge q, task.Consults ofCheck completion ctx judge q := by
  by_cases h : ∃ model, Grades ofCheck ctx.grading.defaultModel model
  · obtain ⟨model, h⟩ := h
    cases hjudge : ctx.grading.judge with
    | none => exact .inr (.inl ⟨model, h, rfl⟩)
    | some judge => exact .inr (.inr ⟨judge, _, hjudge, model, h, rfl⟩)
  · exact .inl (not_exists.mp h)

variable [CustomCode Code]

/-- Without a model the check fails, and nothing is asked. -/
theorem noted_of_no_model (h : ∀ model, ¬ Grades ofCheck ctx.grading.defaultModel model) :
    (task.check ofCheck name).noted completion ctx =
      (.ok (modelUnavailable (task.check ofCheck name).displayName none), []) := by
  rw [Check.noted, runIn_check, runGraded_of_no_model _ _ _ _ h]
  rfl

/-- With a model and no judge there is an error, and nothing is asked. -/
theorem noted_of_no_judge (h : Grades ofCheck ctx.grading.defaultModel model)
    (hjudge : ctx.grading.judge = none) :
    (task.check ofCheck name).noted completion ctx =
      (.error (.judge "no judge configured for model-graded checks"), []) := by
  rw [Check.noted, runIn_check, runGraded_of_no_judge _ _ _ _ h hjudge]
  rfl

/-- A judge that is asked a question is asked no other, and the check comes to what follows from the
answer. -/
theorem noted_of_consults (h : task.Consults ofCheck completion ctx judge q) :
    (task.check ofCheck name).noted completion ctx =
      (task.conclude (task.check ofCheck name).displayName q.model (judge.answer q), [q]) := by
  obtain ⟨hjudge, model, h, rfl⟩ := h
  rw [Check.noted, runIn_check, runGraded_of_judge _ _ _ _ h hjudge]
  rfl

/-- Without a model the check fails. -/
theorem run_of_no_model (h : ∀ model, ¬ Grades ofCheck ctx.grading.defaultModel model) :
    (task.check ofCheck name).run completion ctx =
      .ok (modelUnavailable (task.check ofCheck name).displayName none) := by
  rw [← Check.noted_fst, noted_of_no_model name h]

/-- With a model and no judge there is an error. -/
theorem run_of_no_judge (h : Grades ofCheck ctx.grading.defaultModel model)
    (hjudge : ctx.grading.judge = none) :
    (task.check ofCheck name).run completion ctx =
      .error (.judge "no judge configured for model-graded checks") := by
  rw [← Check.noted_fst, noted_of_no_judge name h hjudge]

/-- With a model and a judge the check comes to what follows from one answer. -/
theorem run_of_consults (h : task.Consults ofCheck completion ctx judge q) :
    (task.check ofCheck name).run completion ctx =
      task.conclude (task.check ofCheck name).displayName q.model (judge.answer q) := by
  rw [← Check.noted_fst, noted_of_consults name h]

/-- What can become of a check: it fails or there is an error of the judge, or else it comes to what
follows from one answer. -/
theorem run_graded_cases (task : GradedTask) (ofCheck name : Option String) (completion : Completion)
    (ctx : Context Code) :
    (∃ r, (task.check ofCheck name).run completion ctx = .ok r ∧ r.success = false) ∨
      (∃ reason, (task.check ofCheck name).run completion ctx = .error (.judge reason)) ∨
      ∃ judge q, task.Consults ofCheck completion ctx judge q ∧
        (task.check ofCheck name).run completion ctx =
          task.conclude (task.check ofCheck name).displayName q.model (judge.answer q) := by
  obtain h | ⟨model, h, hjudge⟩ | ⟨judge, q, hq⟩ := consults_cases task ofCheck completion ctx
  · exact .inl ⟨_, run_of_no_model name h, rfl⟩
  · exact .inr (.inl ⟨_, run_of_no_judge name h hjudge⟩)
  · exact .inr (.inr ⟨judge, q, hq, run_of_consults name hq⟩)

/-- The code of a check that a model grades is missing just if the judge says so. -/
theorem run_eq_unknownCheck_iff {id : String} :
    (task.check ofCheck name).run completion ctx = .error (.unknownCheck id) ↔
      ∃ judge q, task.Consults ofCheck completion ctx judge q ∧
        judge.answer q = .error (.unknownCheck id) := by
  constructor
  · intro hmissing
    obtain ⟨r, hrun, -⟩ | ⟨reason, hrun⟩ | ⟨judge, q, hq, hrun⟩ :=
      run_graded_cases task ofCheck name completion ctx
    · cases hrun.symm.trans hmissing
    · cases hrun.symm.trans hmissing
    · exact ⟨judge, q, hq, conclude_eq_unknownCheck_iff.mp (hrun.symm.trans hmissing)⟩
  · rintro ⟨judge, q, hq, hanswer⟩
    rw [run_of_consults name hq, conclude_eq_unknownCheck_iff, hanswer]

/-- Whatever the judge answers, no model is unknown in the end. -/
theorem run_ne_unknownModel {m : String} :
    (task.check ofCheck name).run completion ctx ≠ .error (.unknownModel m) := by
  intro hunknown
  obtain ⟨r, hrun, -⟩ | ⟨reason, hrun⟩ | ⟨judge, q, -, hrun⟩ :=
    run_graded_cases task ofCheck name completion ctx
  · cases hrun.symm.trans hunknown
  · cases hrun.symm.trans hunknown
  · exact conclude_ne_unknownModel (hrun.symm.trans hunknown)

/-- A check that succeeds has a favourable answer. -/
theorem exists_of_run_succeeds {r : CheckResult}
    (hr : (task.check ofCheck name).run completion ctx = .ok r) (hsuccess : r.success = true) :
    ∃ judge q b, task.Consults ofCheck completion ctx judge q ∧ judge.answer q = .ok b ∧
      task.passes b = true := by
  obtain ⟨r', hrun, hfails⟩ | ⟨reason, hrun⟩ | ⟨judge, q, hq, hrun⟩ :=
    run_graded_cases task ofCheck name completion ctx
  · cases hrun.symm.trans hr
    exact absurd hsuccess (by simp [hfails])
  · cases hrun.symm.trans hr
  · obtain ⟨b, hb, hpasses⟩ := exists_of_conclude_eq_ok (hrun.symm.trans hr) hsuccess
    exact ⟨judge, q, b, hq, hb, hpasses⟩

end GradedTask

/-- What becomes of a check that a model grades, in every context.  No model is unknown in the end, and
the code of the check is never missing, but where the judge itself says so.  The judge is asked just if
a model grades and there is a judge, and then once, with this model and the text of the answer.  Without
a model the check fails, with a model and no judge there is an error, and only a favourable answer makes
the check succeed. -/
theorem graded_fails_closed {Code : Type} [CustomCode Code] (task : GradedTask)
    (ofCheck name : Option String) (completion : Completion) (ctx : Context Code) :
    let check := task.check ofCheck name
    let outcome := check.run completion ctx
    let IsModel := Grades ofCheck ctx.grading.defaultModel
    let Consults := task.Consults ofCheck completion ctx
    (∀ m, outcome ≠ .error (.unknownModel m)) ∧
    (∀ id, outcome = .error (.unknownCheck id) ↔
      ∃ judge q, Consults judge q ∧ judge.answer q = .error (.unknownCheck id)) ∧
    (∀ judge q, Consults judge q →
      outcome = task.conclude check.displayName q.model (judge.answer q) ∧
        check.noted completion ctx = (outcome, [q])) ∧
    ((∀ model, ¬ IsModel model) ∨ ctx.grading.judge = none →
      check.noted completion ctx = (outcome, [])) ∧
    ((∀ model, ¬ IsModel model) → ∃ r, outcome = .ok r ∧ r.success = false) ∧
    (∀ model, IsModel model → ctx.grading.judge = none →
      ∃ reason, outcome = .error (.judge reason)) ∧
    (∀ r, outcome = .ok r → r.success = true →
      ∃ judge q b, Consults judge q ∧ judge.answer q = .ok b ∧ task.passes b = true) := by
  intro check outcome IsModel Consults
  refine ⟨fun m => GradedTask.run_ne_unknownModel name, fun id =>
    GradedTask.run_eq_unknownCheck_iff name, ?_, ?_, ?_, ?_, fun r =>
    GradedTask.exists_of_run_succeeds name⟩
  · intro judge q h
    have hrun : outcome = _ := GradedTask.run_of_consults name h
    refine ⟨hrun, ?_⟩
    rw [hrun, GradedTask.noted_of_consults name h]
  · -- with a model it is the judge that is missing
    intro h
    by_cases hmodel : ∃ model, IsModel model
    · obtain ⟨model, hmodel⟩ := hmodel
      have hjudge : ctx.grading.judge = none := h.resolve_left fun hno => hno model hmodel
      have hrun : outcome = _ := GradedTask.run_of_no_judge name hmodel hjudge
      rw [hrun, GradedTask.noted_of_no_judge name hmodel hjudge]
    · have hno := not_exists.mp hmodel
      have hrun : outcome = _ := GradedTask.run_of_no_model name hno
      rw [hrun, GradedTask.noted_of_no_model name hno]
  · intro hno
    exact ⟨_, GradedTask.run_of_no_model name hno, rfl⟩
  · intro model hmodel hjudge
    exact ⟨_, GradedTask.run_of_no_judge name hmodel hjudge⟩

/-- A judge that takes models for checks. -/
def lostJudge : Judge where
  hasProfanity model _ _ := .error (.unknownCheck model)
  isAligned model _ _ := .error (.unknownCheck model)

/-- The code of a graded check is missing where the judge says so, and that of a custom check is if none
is registered, also if the check has the id of a graded one. -/
theorem unknownCheck_of_lostJudge :
    Check.run ⟨none, .profanity (some "small") []⟩ (.text "hello" [])
        ({ grading := ⟨none, some lostJudge⟩ } : Context Empty) = .error (.unknownCheck "small") ∧
      Check.run ⟨none, .aligned none "Be kind."⟩ (.text "hello" [])
        ({ grading := ⟨some "small", some lostJudge⟩ } : Context Empty) =
          .error (.unknownCheck "small") ∧
      Check.run ⟨none, .custom "profanity" (some "small") []⟩ (.text "hello" [])
        ({ grading := ⟨none, some lostJudge⟩ } : Context Empty) =
          .error (.unknownCheck "profanity") :=
  ⟨rfl, rfl, rfl⟩

/-- A judge that reaches one model only, finds forbidden words that are the whole output, and cannot
tell what follows instructions. -/
def wordJudge : Judge where
  hasProfanity model forbidden output :=
    if model = "small" then .ok (forbidden.contains output) else .error (.unknownModel model)
  isAligned _ _ _ := .error (.judge "no instructions")

/-- A check for profanity without a model of its own is graded by the default one: it succeeds on a
greeting, and one question is asked.  Without a judge there is an error and no question, and without a
default model the check fails. -/
theorem graded_fails_closed_greeting :
    (∃ r, Check.run ⟨none, .profanity (some "") ["darn"]⟩ (.text "hello" [])
        ({ grading := ⟨some "small", some wordJudge⟩ } : Context Empty) = .ok r ∧
          r.success = true) ∧
      (Check.noted ⟨none, .profanity (some "") ["darn"]⟩ (.text "hello" [])
        ({ grading := ⟨some "small", some wordJudge⟩ } : Context Empty)).2 =
          [⟨.profanity ["darn"], "small", "hello"⟩] ∧
      (∃ reason, Check.run ⟨none, .profanity (some "") ["darn"]⟩ (.text "hello" [])
        ({ grading := ⟨some "small", none⟩ } : Context Empty) = .error (.judge reason)) ∧
      (Check.noted ⟨none, .profanity (some "") ["darn"]⟩ (.text "hello" [])
        ({ grading := ⟨some "small", none⟩ } : Context Empty)).2 = [] ∧
      (∃ r, Check.run ⟨none, .profanity (some "") ["darn"]⟩ (.text "hello" [])
        ({ grading := ⟨some "", some wordJudge⟩ } : Context Empty) = .ok r ∧ r.success = false) := by
  have hsmall : Grades (some "") (some "small") "small" :=
    ⟨by decide, .inr ⟨.inr rfl, rfl⟩⟩
  have hnone : ∀ model, ¬ Grades (some "") (some "") model := by
    rintro model ⟨hname, hmodel | ⟨-, hmodel⟩⟩ <;> exact hname (Option.some.inj hmodel).symm
  obtain ⟨-, -, hasked, -⟩ := graded_fails_closed (.profanity ["darn"]) (some "") none
    (.text "hello" []) ({ grading := ⟨some "small", some wordJudge⟩ } : Context Empty)
  obtain ⟨-, -, -, hsilent, -, herror, -⟩ := graded_fails_closed (.profanity ["darn"]) (some "") none
    (.text "hello" []) ({ grading := ⟨some "small", none⟩ } : Context Empty)
  obtain ⟨-, -, -, -, hfails, -⟩ := graded_fails_closed (.profanity ["darn"]) (some "") none
    (.text "hello" []) ({ grading := ⟨some "", some wordJudge⟩ } : Context Empty)
  obtain ⟨houtcome, hnoted⟩ := hasked wordJudge _ ⟨rfl, "small", hsmall, rfl⟩
  exact ⟨⟨_, houtcome, by decide⟩, congrArg Prod.snd hnoted, herror "small" hsmall rfl,
    congrArg Prod.snd (hsilent (.inr rfl)), hfails hnone⟩

end Promptwright
