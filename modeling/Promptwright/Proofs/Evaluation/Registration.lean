import Promptwright.Proofs.Evaluation.Cases

/-!
# Registering custom checks

Code is registered under an id, in place of what was registered under it before.  A custom check is
run by the code of its id, and the built-in kinds are run by none, also if code is registered under
one of their ids.

Code sees everything that is registered, so a registration can matter to the checks of other ids: their
code may look for it.  Code that does not look at what is registered is local.  As long as the code in
question is local, a registration touches the custom checks of its own id and nothing else.  Where that
id was not known before, these checks were passed over, and now they report.

## Key results

- `Context.custom?_register`: what is registered after a registration
- `Context.custom?_registerAll_of_last`: the last code for an id is the one that counts
- `Context.register_comm`: registrations under different ids can be exchanged
- `Check.run_congr`: what a check consults
- `registration_frame`: what registrations do to checks and cases
-/

namespace Promptwright

variable {Code : Type} [CustomCode Code]

/-- The id of a custom kind. -/
def CheckKind.customId? : CheckKind → Option String
  | .custom id .. => some id
  | _ => none

/-! ## Code -/

/-- Code that does not look at what is registered.  It may ask the judge. -/
def CustomCode.IsLocal (code : Code) : Prop :=
  ∀ check completion (ctx ctx' : Context Code), ctx.grading = ctx'.grading →
    run code check completion ctx = run code check completion ctx'

/-- Code that has a result for every check of its id. -/
def CustomCode.Answers (code : Code) : Prop :=
  ∀ (check : Check) completion ctx, check.kind.customId? = some (id code) →
    ∃ r, run code check completion ctx = .ok r

namespace Context

variable {ctx : Context Code} {codes : List Code} {code code' : Code} {k : String}

/-! ## What is registered -/

/-- Registers code one after the other. -/
def registerAll (ctx : Context Code) (codes : List Code) : Context Code :=
  codes.foldl register ctx

/-- A registration sets what is found under its id. -/
theorem custom?_register (ctx : Context Code) (code : Code) (k : String) :
    (ctx.register code).custom? k = if k = CustomCode.id code then some code else ctx.custom? k := by
  simp only [custom?, register, Std.ExtTreeMap.getElem?_insert, Std.LawfulEqCmp.compare_eq_iff_eq,
    @eq_comm _ k]

/-- A registration does not change the models that grade. -/
@[simp] theorem grading_register (ctx : Context Code) (code : Code) :
    (ctx.register code).grading = ctx.grading := rfl

/-- Registrations do not change the models that grade. -/
@[simp] theorem grading_registerAll : (ctx.registerAll codes).grading = ctx.grading := by
  induction codes generalizing ctx with
  | nil => rfl
  | cons code codes ih => exact ih

/-- Lists of registrations one after the other. -/
theorem registerAll_append (codes codes' : List Code) :
    ctx.registerAll (codes ++ codes') = (ctx.registerAll codes).registerAll codes' :=
  List.foldl_append ..

/-- Nothing changes under an id that is not registered. -/
theorem custom?_registerAll_of_not_mem (hk : k ∉ codes.map CustomCode.id) :
    (ctx.registerAll codes).custom? k = ctx.custom? k := by
  induction codes generalizing ctx with
  | nil => rfl
  | cons code codes ih =>
    simp only [List.map_cons, List.mem_cons, not_or] at hk
    show ((ctx.register code).registerAll codes).custom? k = _
    rw [ih hk.2, custom?_register, if_neg hk.1]

/-- The last code that is registered under an id is found there. -/
theorem custom?_registerAll_of_last {before after : List Code}
    (hcode : CustomCode.id code ∉ after.map CustomCode.id) :
    (ctx.registerAll (before ++ code :: after)).custom? (CustomCode.id code) = some code := by
  rw [registerAll_append]
  show (((ctx.registerAll before).register code).registerAll after).custom? _ = _
  rw [custom?_registerAll_of_not_mem hcode, custom?_register, if_pos rfl]

/-- What is found after registrations is one of them or was there before. -/
theorem mem_or_of_custom?_registerAll (h : (ctx.registerAll codes).custom? k = some code) :
    code ∈ codes ∨ ctx.custom? k = some code := by
  induction codes generalizing ctx with
  | nil => exact .inr h
  | cons code' codes ih =>
    have h : ((ctx.register code').registerAll codes).custom? k = some code := h
    obtain hmem | hbefore := ih h
    · exact .inl (List.mem_cons_of_mem _ hmem)
    · rw [custom?_register] at hbefore
      split at hbefore
      · exact .inl (List.mem_cons.mpr (.inl (Option.some.inj hbefore).symm))
      · exact .inr hbefore

/-- Registrations under different ids can be exchanged. -/
theorem register_comm (h : CustomCode.id code ≠ CustomCode.id code') :
    (ctx.register code).register code' = (ctx.register code').register code := by
  have hcustom : ((ctx.register code).register code').custom =
      ((ctx.register code').register code).custom := by
    refine Std.ExtTreeMap.ext_getElem? fun k => ?_
    -- under each of the two ids stands its own code
    have hfound : ((ctx.register code).register code').custom? k =
        ((ctx.register code').register code).custom? k := by
      simp only [custom?_register]
      by_cases hk : k = CustomCode.id code
      · subst hk
        simp [h]
      · simp [hk]
    exact hfound
  exact congrArg (Context.mk ctx.grading) hcustom

end Context

/-! ## What a check consults -/

namespace Check

variable {completion : Completion} {ctx ctx' : Context Code} {check : Check} {id : String}

/-- A custom check is run by the code of its id. -/
theorem run_custom (h : check.kind.customId? = some id) :
    check.run completion ctx =
      match ctx.custom? id with
      | some code => CustomCode.run code check completion ctx
      | none => .error (.unknownCheck id) := by
  obtain ⟨name, kind⟩ := check
  cases kind with
  | custom id' model options =>
    cases h
    simp only [run, runIn]
    cases ctx.custom? id <;> rfl
  | _ => cases h

/-- A check of a built-in kind consults the models that grade. -/
theorem run_congr_of_builtin (h : check.kind.customId? = none) (hgrading : ctx.grading = ctx'.grading) :
    check.run completion ctx = check.run completion ctx' := by
  obtain ⟨name, kind⟩ := check
  cases kind with
  | custom => cases h
  | _ => simp only [run, runIn, hgrading]

/-- A check consults the models that grade, and a custom one the code of its id, if that is local. -/
theorem run_congr (hgrading : ctx.grading = ctx'.grading)
    (hcustom : ∀ id, check.kind.customId? = some id → ctx.custom? id = ctx'.custom? id)
    (hlocal : ∀ id code, check.kind.customId? = some id → ctx.custom? id = some code →
      CustomCode.IsLocal code) : check.run completion ctx = check.run completion ctx' := by
  cases hkind : check.kind.customId? with
  | none => exact run_congr_of_builtin hkind hgrading
  | some id =>
    rw [run_custom hkind, run_custom hkind, ← hcustom id hkind]
    cases hcode : ctx.custom? id with
    | none => rfl
    | some code => exact hlocal id code hkind hcode _ _ _ _ hgrading

/-- A registration touches the custom checks of its id only, if the code of the others is local. -/
theorem run_register_of_ne {code : Code} (h : check.kind.customId? ≠ some (CustomCode.id code))
    (hlocal : ∀ id code, check.kind.customId? = some id → ctx.custom? id = some code →
      CustomCode.IsLocal code) :
    check.run completion (ctx.register code) = check.run completion ctx := by
  have hcustom : ∀ id, check.kind.customId? = some id →
      ctx.custom? id = (ctx.register code).custom? id := by
    intro id hid
    rw [Context.custom?_register, if_neg]
    rintro rfl
    exact h hid
  exact (run_congr (ctx.grading_register code).symm hcustom hlocal).symm

end Check

/-! ## Cases -/

namespace EvaluationSuite

variable {s : EvaluationSuite} {c : EvaluationCase} {completion : Completion} {ctx : Context Code}

/-- The code that runs the custom checks of a case does not look at what is registered. -/
def RunsLocally (s : EvaluationSuite) (c : EvaluationCase) (ctx : Context Code) : Prop :=
  ∀ check ∈ s.checksFor c, ∀ id code, check.kind.customId? = some id → ctx.custom? id = some code →
    CustomCode.IsLocal code

/-- The results of a case, each with the check that it is of. -/
def reports (s : EvaluationSuite) (c : EvaluationCase) (completion : Completion)
    (ctx : Context Code) : List (Check × CheckResult) :=
  (s.checksFor c).filterMap fun check => (check.result? completion ctx).map (check, ·)

/-- Without the checks, reports are results. -/
theorem map_snd_reports :
    (s.reports c completion ctx).map Prod.snd =
      (s.checksFor c).filterMap (Check.result? completion ctx) := by
  rw [reports, List.map_filterMap]
  simp only [Option.map_map, Function.comp_def, Option.map_id']

/-- Registrations of local code let the custom checks of a case run locally. -/
theorem RunsLocally.registerAll {codes : List Code} (h : s.RunsLocally c ctx)
    (hcodes : ∀ code ∈ codes, CustomCode.IsLocal code) :
    s.RunsLocally c (ctx.registerAll codes) := by
  intro check hcheck id code hid hcode
  obtain hmem | hbefore := Context.mem_or_of_custom?_registerAll hcode
  · exact hcodes code hmem
  · exact h check hcheck id code hid hbefore

/-- Where code is registered under a new id, a case that had results has those and the ones of the
custom checks of that id. -/
theorem runCase_register {code : Code} {results : List CheckResult}
    (hlocal : s.RunsLocally c ctx) (hnew : ctx.custom? (CustomCode.id code) = none)
    (hcode : CustomCode.Answers code) (h : s.runCase c completion ctx = .ok results) :
    s.runCase c completion (ctx.register code) =
        .ok ((s.reports c completion (ctx.register code)).map Prod.snd) ∧
      results = ((s.reports c completion (ctx.register code)).filter
        fun r => r.1.kind.customId? != some (CustomCode.id code)).map Prod.snd := by
  obtain ⟨hends, rfl⟩ := runChecks_eq_ok_iff.mp h
  have hother : ∀ check ∈ s.checksFor c, check.kind.customId? ≠ some (CustomCode.id code) →
      check.run completion (ctx.register code) = check.run completion ctx :=
    fun check hcheck hid => Check.run_register_of_ne hid (hlocal check hcheck)
  constructor
  · rw [map_snd_reports]
    refine runChecks_eq_ok_iff.mpr ⟨fun check hcheck e he => ?_, rfl⟩
    by_cases hid : check.kind.customId? = some (CustomCode.id code)
    · -- the new code answers
      obtain ⟨r, hr⟩ := hcode check completion (ctx.register code) hid
      have hrun := he.1
      rw [Check.run_custom hid, Context.custom?_register, if_pos rfl] at hrun
      cases hr.symm.trans hrun
    · exact hends check hcheck e ⟨(hother check hcheck hid) ▸ he.1, he.2⟩
  · rw [reports, List.filter_filterMap, List.map_filterMap]
    refine List.filterMap_congr fun check hcheck => ?_
    by_cases hid : check.kind.customId? = some (CustomCode.id code)
    · -- the check was passed over
      have hpassed : check.result? completion ctx = none := by
        rw [Check.result?, Check.run_custom hid, hnew]
        rfl
      rw [hpassed]
      cases check.result? completion (ctx.register code) <;> simp [Option.filter_some, hid]
    · have hsame : check.result? completion (ctx.register code) =
          check.result? completion ctx := by
        rw [Check.result?, hother check hcheck hid]
        rfl
      rw [hsame]
      cases check.result? completion ctx <;> simp [Option.filter_some, hid]

end EvaluationSuite

/-- Registrations touch the custom checks of their own ids only.  Whatever has been registered, the
built-in kinds have the outcome that they had before, also if their ids have been registered, and so
have custom checks of other ids if their code is local.  A custom check is run by the last code that was
registered under its id.  Registrations under different ids can be exchanged, wherever they stand.
Registering code under a new id adds the results of its checks to those of a case, if the code that
runs the other custom checks of the case is local. -/
theorem registration_frame (ctx : Context Code) (codes : List Code) (completion : Completion) :
    (∀ check : Check, check.kind.customId? = none →
      check.run completion (ctx.registerAll codes) = check.run completion ctx) ∧
    (∀ (check : Check) (id : String), check.kind.customId? = some id →
      id ∉ codes.map CustomCode.id →
      (∀ code, ctx.custom? id = some code → CustomCode.IsLocal code) →
      check.run completion (ctx.registerAll codes) = check.run completion ctx) ∧
    (∀ (check : Check) (code : Code) (before after),
      check.kind.customId? = some (CustomCode.id code) → codes = before ++ code :: after →
      CustomCode.id code ∉ after.map CustomCode.id →
      check.run completion (ctx.registerAll codes) =
        CustomCode.run code check completion (ctx.registerAll codes)) ∧
    (∀ (before after) (code code' : Code), codes = before ++ code :: code' :: after →
      CustomCode.id code ≠ CustomCode.id code' →
      ctx.registerAll codes = ctx.registerAll (before ++ code' :: code :: after)) ∧
    (∀ (s : EvaluationSuite) (c : EvaluationCase) (code : Code) (results),
      s.RunsLocally c ctx → (∀ code ∈ codes, CustomCode.IsLocal code) →
      (ctx.registerAll codes).custom? (CustomCode.id code) = none → CustomCode.Answers code →
      s.runCase c completion (ctx.registerAll codes) = .ok results →
      ∃ reports : List (Check × CheckResult),
        reports = s.reports c completion ((ctx.registerAll codes).register code) ∧
        s.runCase c completion ((ctx.registerAll codes).register code) =
          .ok (reports.map Prod.snd) ∧
        results = (reports.filter
          fun r => r.1.kind.customId? != some (CustomCode.id code)).map Prod.snd) := by
  refine ⟨fun check hkind => ?_, fun check id hkind hid hlocal => ?_,
    fun check code before after hkind hcodes hlast => ?_, fun before after code code' hcodes hne => ?_,
    fun s c code results hlocal hcodes hnew hanswers hrun =>
      ⟨_, rfl, EvaluationSuite.runCase_register (hlocal.registerAll hcodes) hnew hanswers hrun⟩⟩
  · exact Check.run_congr_of_builtin hkind Context.grading_registerAll
  · have honly : ∀ k, check.kind.customId? = some k → id = k :=
      fun k hk => Option.some.inj (hkind.symm.trans hk)
    refine (Check.run_congr Context.grading_registerAll.symm (fun k hk => ?_) fun k code hk => ?_).symm
    · exact (Context.custom?_registerAll_of_not_mem (honly k hk ▸ hid)).symm
    · exact honly k hk ▸ hlocal code
  · rw [Check.run_custom hkind, hcodes, Context.custom?_registerAll_of_last hlast]
  · rw [hcodes, Context.registerAll_append, Context.registerAll_append]
    exact congrArg (Context.registerAll · after) (Context.register_comm hne)

/-! ## Code that approves -/

/-- Code that approves of every answer, with a remark, and code that cannot work next to that for
another id. -/
inductive Approval
  | approve (id remark : String)
  | alone (id other : String)

instance : CustomCode Approval where
  id
    | .approve id _ => id
    | .alone id _ => id
  run
    | .approve _ remark, check, _, _ => .ok ⟨check.displayName, true, .string remark⟩
    | .alone _ other, check, _, ctx =>
      match ctx.custom? other with
      | some _ => .error (.judge "not alone")
      | none => .ok ⟨check.displayName, true, .null⟩

/-- To approve is local. -/
theorem Approval.isLocal_approve (id remark : String) :
    CustomCode.IsLocal (Approval.approve id remark) :=
  fun _ _ _ _ _ => rfl

/-- To approve is to answer. -/
theorem Approval.answers_approve (id remark : String) :
    CustomCode.Answers (Approval.approve id remark) :=
  fun _ _ _ _ => ⟨_, rfl⟩

/-- Code for a built-in id, and twice for an id of its own. -/
def approvals : List Approval :=
  [.approve "exact_match" "never asked", .approve "tone" "replaced", .approve "tone" "kind"]

/-- A suite with one check for every case. -/
def politeSuite : EvaluationSuite := ⟨[⟨none, .exactMatch "Hello" false⟩], []⟩

/-- A case with two custom checks. -/
def politeCase : EvaluationCase :=
  ⟨none, [], [⟨none, .custom "brevity" none []⟩, ⟨none, .custom "tone" none []⟩]⟩

/-- What the text and the tone give. -/
def politeResults : List CheckResult :=
  [⟨"exact_match", true, .object [("case_insensitive", .bool false)]⟩,
    ⟨"tone", true, .string "kind"⟩]

/-- Code that was registered before may look for what comes later, and then a case that had results
has none, though code is registered under a new id that answers and is local.  A custom check that has
the id of a built-in kind is no check of that kind, and has no result unless code is registered. -/
theorem case_ends_after_registration :
    CustomCode.IsLocal (Approval.approve "brevity" "short") ∧
      CustomCode.Answers (Approval.approve "brevity" "short") ∧
      (({} : Context Approval).register (.alone "tone" "brevity")).custom? "brevity" = none ∧
      politeSuite.runCase politeCase (.text "Hello" [])
          (({} : Context Approval).register (.alone "tone" "brevity")) =
        .ok [⟨"exact_match", true, .object [("case_insensitive", .bool false)]⟩,
          ⟨"tone", true, .null⟩] ∧
      politeSuite.runCase politeCase (.text "Hello" [])
          ((({} : Context Approval).register (.alone "tone" "brevity")).register
            (.approve "brevity" "short")) = .error (.judge "not alone") ∧
      Check.run ⟨none, .custom "exact_match" none []⟩ (.text "Hello" []) ({} : Context Approval) =
        .error (.unknownCheck "exact_match") ∧
      Check.run ⟨none, .custom "exact_match" none []⟩ (.text "Hello" [])
          (({} : Context Approval).register (.approve "exact_match" "asked")) =
        .ok ⟨"exact_match", true, .string "asked"⟩ :=
  ⟨Approval.isLocal_approve _ _, Approval.answers_approve _ _, rfl, rfl, rfl, rfl, rfl⟩

/-- With these registrations the text is compared as before, the tone is approved of by the last
code, and the case has the results of both.  Code for the other custom check adds its result. -/
theorem registration_frame_approvals :
    Check.run ⟨none, .exactMatch "Hello" false⟩ (.text "Hello" [])
        (({} : Context Approval).registerAll approvals) =
      Check.run ⟨none, .exactMatch "Hello" false⟩ (.text "Hello" []) ({} : Context Approval) ∧
    Check.run ⟨none, .custom "brevity" none []⟩ (.text "Hello" [])
        (({} : Context Approval).registerAll approvals) =
      Check.run ⟨none, .custom "brevity" none []⟩ (.text "Hello" []) ({} : Context Approval) ∧
    Check.run ⟨none, .custom "tone" none []⟩ (.text "Hello" [])
        (({} : Context Approval).registerAll approvals) = .ok ⟨"tone", true, .string "kind"⟩ ∧
    ({} : Context Approval).registerAll approvals = ({} : Context Approval).registerAll
      [.approve "tone" "replaced", .approve "exact_match" "never asked", .approve "tone" "kind"] ∧
    politeSuite.runCase politeCase (.text "Hello" [])
      (({} : Context Approval).registerAll approvals) = .ok politeResults ∧
    ∃ reports : List (Check × CheckResult),
      politeSuite.runCase politeCase (.text "Hello" [])
          ((({} : Context Approval).registerAll approvals).register (.approve "brevity" "short")) =
        .ok (reports.map Prod.snd) ∧
      politeResults =
        (reports.filter fun r => r.1.kind.customId? != some "brevity").map Prod.snd := by
  obtain ⟨hbuiltin, hother, hlast, hswap, hcase⟩ :=
    registration_frame ({} : Context Approval) approvals (.text "Hello" [])
  have hrun : politeSuite.runCase politeCase (.text "Hello" [])
      (({} : Context Approval).registerAll approvals) = .ok politeResults := rfl
  have hempty : ∀ k code, ({} : Context Approval).custom? k ≠ some code := by
    intro k code
    simp [Context.custom?]
  have hlocal : ∀ code ∈ approvals, CustomCode.IsLocal code := by
    simp only [approvals, List.forall_mem_cons]
    exact ⟨Approval.isLocal_approve _ _, Approval.isLocal_approve _ _, Approval.isLocal_approve _ _,
      nofun⟩
  obtain ⟨reports, -, hreports⟩ := hcase politeSuite politeCase (.approve "brevity" "short") _
    (fun _ _ k code _ hcode => absurd hcode (hempty k code)) hlocal rfl
    (Approval.answers_approve _ _) hrun
  exact ⟨hbuiltin _ rfl,
    hother _ "brevity" rfl (by decide) fun code hcode => absurd hcode (hempty _ code),
    hlast _ (.approve "tone" "kind") [.approve "exact_match" "never asked",
      .approve "tone" "replaced"] [] rfl rfl (by decide),
    hswap [] [.approve "tone" "kind"] _ _ rfl (by decide), hrun, reports, hreports⟩

end Promptwright
