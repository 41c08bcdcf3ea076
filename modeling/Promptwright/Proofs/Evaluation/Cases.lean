import Promptwright.Evaluation.Run
import Promptwright.Proofs.Except

/-!
# Runs of cases

The checks of a case run one after the other.  A check either gives a result, or is passed over
since its code is not known, or ends the run with its error.  What becomes of a run is told by its
checks one by one: the first of them that ends the run decides, and if none does then every check
that gave a result is reported, in the order of the checks.

The code of a custom check may make anything of the check, the answer and the context, so it may also
say of itself that it is not known.

## Key results

- `Check.run_cases`: what a check can do to a run
- `runChecks_append`: runs over lists that are put together
- `runChecks_eq_ok_iff`, `runChecks_eq_error_iff`: what becomes of a run
- `runCase_outcome`: what becomes of a case
-/

namespace Promptwright

variable {Code : Type} [CustomCode Code] {completion : Completion} {ctx : Context Code}

/-! ## What a check does to a run -/

namespace Check

/-- A check ends the run of a case with an error: it fails, and not for want of its code. -/
def Aborts (completion : Completion) (ctx : Context Code) (check : Check) (e : CheckError) : Prop :=
  check.run completion ctx = .error e ∧ ∀ id, e ≠ .unknownCheck id

/-- The result of a check, if it has one. -/
def result? (completion : Completion) (ctx : Context Code) (check : Check) : Option CheckResult :=
  (check.run completion ctx).toOption

/-- A check either has a result, or ends the run, or is passed over. -/
theorem run_cases (check : Check) (completion : Completion) (ctx : Context Code) :
    (∃ r, check.run completion ctx = .ok r) ∨ (∃ e, check.Aborts completion ctx e) ∨
      ∃ id, check.run completion ctx = .error (.unknownCheck id) := by
  cases h : check.run completion ctx with
  | ok r => exact .inl ⟨r, rfl⟩
  | error e =>
    cases e with
    | unknownCheck id => exact .inr (.inr ⟨id, rfl⟩)
    | unknownModel model => exact .inr (.inl ⟨_, h, by simp⟩)
    | judge reason => exact .inr (.inl ⟨_, h, by simp⟩)

end Check

/-! ## Runs -/

section Runs

variable {check : Check} {checks : List Check}

/-- A check with a result reports it, and the run goes on. -/
theorem runChecks_of_ok {r : CheckResult} (h : check.run completion ctx = .ok r)
    (checks : List Check) :
    runChecks completion ctx (check :: checks) = (r :: ·) <$> runChecks completion ctx checks := by
  rw [runChecks, h]
  rfl

/-- A check whose code is not known is passed over. -/
theorem runChecks_of_unknown {id : String} (h : check.run completion ctx = .error (.unknownCheck id))
    (checks : List Check) :
    runChecks completion ctx (check :: checks) = runChecks completion ctx checks := by
  rw [runChecks, h]

/-- A check that ends the run leaves its error. -/
theorem runChecks_of_aborts {e : CheckError} (h : check.Aborts completion ctx e)
    (checks : List Check) : runChecks completion ctx (check :: checks) = .error e := by
  obtain ⟨herror, hknown⟩ := h
  rw [runChecks, herror]
  cases e with
  | unknownCheck id => exact absurd rfl (hknown id)
  | unknownModel model => rfl
  | judge reason => rfl

/-- A run over two lists is a run over the first one, and then a run over the second one. -/
theorem runChecks_append (checks checks' : List Check) :
    runChecks completion ctx (checks ++ checks') = (do
      let results ← runChecks completion ctx checks
      let results' ← runChecks completion ctx checks'
      return results ++ results') := by
  induction checks with
  | nil =>
    show runChecks completion ctx checks' = _
    cases runChecks completion ctx checks' <;> rfl
  | cons check checks ih =>
    rw [List.cons_append]
    -- the first check does the same to both runs
    obtain ⟨r, hr⟩ | ⟨e, he⟩ | ⟨id, hid⟩ := check.run_cases completion ctx
    · rw [runChecks_of_ok hr, runChecks_of_ok hr, ih]
      cases runChecks completion ctx checks with
      | error e => rfl
      | ok results => cases runChecks completion ctx checks' <;> rfl
    · rw [runChecks_of_aborts he, runChecks_of_aborts he]
      rfl
    · rw [runChecks_of_unknown hid, runChecks_of_unknown hid, ih]

/-- A run that no check ends reports all results, in the order of the checks. -/
theorem runChecks_eq_ok (h : ∀ k ∈ checks, ∀ e, ¬ k.Aborts completion ctx e) :
    runChecks completion ctx checks = .ok (checks.filterMap (Check.result? completion ctx)) := by
  induction checks with
  | nil => rfl
  | cons check checks ih =>
    have hrest := ih fun k hk => h k (List.mem_cons_of_mem _ hk)
    obtain ⟨r, hr⟩ | ⟨e, he⟩ | ⟨id, hid⟩ := check.run_cases completion ctx
    · have hresult : check.result? completion ctx = some r := by rw [Check.result?, hr]; rfl
      rw [runChecks_of_ok hr, hrest, List.filterMap_cons_some hresult]
      rfl
    · exact absurd he (h check List.mem_cons_self e)
    · have hresult : check.result? completion ctx = none := by rw [Check.result?, hid]; rfl
      rw [runChecks_of_unknown hid, hrest, List.filterMap_cons_none hresult]

/-- A run has the error of the first check that ends it. -/
theorem runChecks_eq_error {before after : List Check} {e : CheckError}
    (hbefore : ∀ k ∈ before, ∀ e', ¬ k.Aborts completion ctx e')
    (h : check.Aborts completion ctx e) :
    runChecks completion ctx (before ++ check :: after) = .error e := by
  rw [runChecks_append, runChecks_eq_ok hbefore, runChecks_of_aborts h]
  rfl

/-- Among some checks, none ends the run or there is a first one that does. -/
theorem exists_first_abort (completion : Completion) (ctx : Context Code) (checks : List Check) :
    (∀ k ∈ checks, ∀ e, ¬ k.Aborts completion ctx e) ∨
      ∃ before check after e, checks = before ++ check :: after ∧
        check.Aborts completion ctx e ∧ ∀ k ∈ before, ∀ e', ¬ k.Aborts completion ctx e' := by
  induction checks with
  | nil => exact .inl fun k hk => absurd hk List.not_mem_nil
  | cons check checks ih =>
    by_cases hcheck : ∃ e, check.Aborts completion ctx e
    · -- nothing stands before the first check
      obtain ⟨e, he⟩ := hcheck
      exact .inr ⟨[], check, checks, e, rfl, he, fun k hk => absurd hk List.not_mem_nil⟩
    · have hcheck' : ∀ e, ¬ check.Aborts completion ctx e := not_exists.mp hcheck
      obtain hnone | ⟨before, k, after, e, rfl, hk, hbefore⟩ := ih
      · exact .inl (List.forall_mem_cons.mpr ⟨hcheck', hnone⟩)
      · exact .inr ⟨check :: before, k, after, e, rfl, hk,
          List.forall_mem_cons.mpr ⟨hcheck', hbefore⟩⟩

/-- A run has results just if no check ends it, and then those of all its checks. -/
theorem runChecks_eq_ok_iff {results : List CheckResult} :
    runChecks completion ctx checks = .ok results ↔
      (∀ k ∈ checks, ∀ e, ¬ k.Aborts completion ctx e) ∧
        results = checks.filterMap (Check.result? completion ctx) := by
  constructor
  · intro h
    obtain hnone | ⟨before, check, after, e, rfl, he, hbefore⟩ :=
      exists_first_abort completion ctx checks
    · rw [runChecks_eq_ok hnone] at h
      exact ⟨hnone, (Except.ok.inj h).symm⟩
    · rw [runChecks_eq_error hbefore he] at h
      cases h
  · rintro ⟨hnone, rfl⟩
    exact runChecks_eq_ok hnone

/-- A run has an error just if some check ends it, and then that of the first one. -/
theorem runChecks_eq_error_iff {e : CheckError} :
    runChecks completion ctx checks = .error e ↔
      ∃ before check after, checks = before ++ check :: after ∧
        check.Aborts completion ctx e ∧ ∀ k ∈ before, ∀ e', ¬ k.Aborts completion ctx e' := by
  constructor
  · intro h
    obtain hnone | ⟨before, check, after, e', rfl, he, hbefore⟩ :=
      exists_first_abort completion ctx checks
    · rw [runChecks_eq_ok hnone] at h
      cases h
    · rw [runChecks_eq_error hbefore he] at h
      obtain rfl := Except.error.inj h
      exact ⟨before, check, after, rfl, he, hbefore⟩
  · rintro ⟨before, check, after, rfl, he, hbefore⟩
    exact runChecks_eq_error hbefore he

end Runs

/-! ## Cases -/

/-- A case ends with an error just if some check of the suite or of the case ends the run, and then
with the error of the first one; the checks of the suite come first.  Otherwise its results are those
of the checks that have one, each once and in their order.  So the outcome is the one of the suite's
own checks followed by the one of the case's own, and an error of the suite hides all of the case. -/
theorem runCase_outcome (s : EvaluationSuite) (c : EvaluationCase) (completion : Completion)
    (ctx : Context Code) :
    (∀ e, s.runCase c completion ctx = .error e ↔
      ∃ before check after, s.checks ++ c.checks = before ++ check :: after ∧
        check.Aborts completion ctx e ∧ ∀ k ∈ before, ∀ e', ¬ k.Aborts completion ctx e') ∧
    (∀ results, s.runCase c completion ctx = .ok results ↔
      (∀ k ∈ s.checks ++ c.checks, ∀ e, ¬ k.Aborts completion ctx e) ∧
        results = (s.checks ++ c.checks).filterMap (Check.result? completion ctx)) ∧
    s.runCase c completion ctx = (do
      let ofSuite ← s.runCase { c with checks := [] } completion ctx
      let ofCase ← { s with checks := [] }.runCase c completion ctx
      return ofSuite ++ ofCase) := by
  have hsuite : s.runCase { c with checks := [] } completion ctx =
      runChecks completion ctx s.checks := by
    unfold EvaluationSuite.runCase EvaluationSuite.checksFor
    rw [List.append_nil]
  have hcase : { s with checks := [] }.runCase c completion ctx =
      runChecks completion ctx c.checks := rfl
  -- a run of the checks is a run of those of the suite and then of those of the case
  refine ⟨fun e => runChecks_eq_error_iff, fun results => runChecks_eq_ok_iff, ?_⟩
  rw [hsuite, hcase]
  exact runChecks_append s.checks c.checks

end Promptwright
