import FlowSuite.Proofs.TestCase.Outcomes

/-!
# Skipped steps and criteria leave no mark on the program

A step without an operation has no test, and a criterion that does not compile makes no assertion. Nothing else in the
program depends on them:

* the program depends on the bare tests only, without failed checks and without reports (`Suite.program?_bare`): what
  is on record of assertions is what they use (`Suite.emission_bare_generate`);
* the bare test of a step is that of the step alone, without its failing criteria (`bare_testOf`), so the statements of
  a step are the same wherever the step stands and whatever stands beside it (`getElem?_bodies`);
* a document gives the program that it gives without all such steps and criteria (`program_withoutSkipped`).
-/

namespace FlowSuite

open Script (Stmt)

/-! ## What is skipped -/

/-- Compiles; in what scope does not matter (`Criterion.isOk_assertions`). -/
def Criterion.compiles (context : String) (c : Criterion) : Bool := (c.assertions context .detached).1.isOk

/-- The operation of the step is found. -/
def Setting.finds (setting : Setting) (step : Step) : Bool := (setting.endpoint? step).isSome

/-- The step without the criteria that do not compile. -/
def Step.withoutFailing (context : String) (step : Step) : Step :=
  { step with successCriteria := step.successCriteria.filter (Criterion.compiles context) }

/-- The workflow without the steps whose operation is not found and the criteria that do not compile. -/
def Workflow.withoutSkipped (setting : Setting) (w : Workflow) : Workflow :=
  { w with steps := (w.steps.filter setting.finds).map (Step.withoutFailing setting.defaultContext) }

/-- The document without such steps and criteria. -/
def WorkflowDocument.withoutSkipped (setting : Setting) (document : WorkflowDocument) : WorkflowDocument :=
  { document with workflows := document.workflows.map (Workflow.withoutSkipped setting) }

theorem Criterion.isOk_assertions (c : Criterion) (context : String) (s : Scope) :
    (c.assertions context s).1.isOk = c.compiles context := by
  unfold Criterion.compiles Criterion.assertions
  cases c.kind? with
  | none => rfl
  | some kind =>
    cases kind with
    | simple =>
      rcases compileSimple_cases c.condition with ⟨e, h⟩ | ⟨tree, _, h⟩ <;> simp only [h, Except.isOk, Except.toBool]
    | regex =>
      rcases compileRegex_cases c.condition with ⟨e, h⟩ | ⟨regex, h⟩ <;> simp only [h, Except.isOk, Except.toBool]
    | jsonPath =>
      rcases compilePath_cases c.condition with ⟨e, h⟩ | ⟨_, _, _, h⟩ <;> simp only [h, Except.isOk, Except.toBool]

/-! ## Bare tests -/

namespace Check

/-- The criterion compiles. -/
def succeeds (c : Check) : Bool := c.result.isOk

theorem assertions_of_not_succeeds {c : Check} (h : c.succeeds = false) : c.assertions = [] := by
  unfold succeeds at h
  unfold assertions
  cases hr : c.result with
  | ok as => simp [hr, Except.isOk, Except.toBool] at h
  | error e => rfl

theorem queriesPath_and_succeeds (c : Check) : (c.succeeds && c.queriesPath) = c.queriesPath := by
  unfold succeeds queriesPath
  cases c.result <;> simp [Except.isOk, Except.toBool]

/-- Checks that fail make no assertion. -/
theorem assertions_filter_succeeds (checks : List Check) :
    (checks.filter succeeds).flatMap assertions = checks.flatMap assertions := by
  induction checks with
  | nil => rfl
  | cons check checks ih =>
    cases hc : check.succeeds with
    | true => rw [List.filter_cons_of_pos hc, List.flatMap_cons, List.flatMap_cons, ih]
    | false =>
      rw [List.filter_cons_of_neg (by simp [hc]), List.flatMap_cons, ih, assertions_of_not_succeeds hc, List.nil_append]

end Check

/-- **Checks that fail put nothing on record.** -/
theorem Emission.record_filter_succeeds (emission : Emission) (checks : List Check) (reports : List Diagnostic) :
    emission.record (checks.filter Check.succeeds) reports = emission.record checks reports := by
  simp only [record, Check.assertions_filter_succeeds, List.any_filter, Check.queriesPath_and_succeeds]

namespace StepTest

/-- The test without failed checks and without reports. -/
def bare (t : StepTest) : StepTest := { t with checks := t.checks.filter Check.succeeds, diagnostics := [] }

theorem assertions_bare (t : StepTest) : t.bare.assertions = t.assertions :=
  Check.assertions_filter_succeeds t.checks

theorem body_bare (t : StepTest) : t.bare.body = t.body := by
  unfold body
  rw [assertions_bare]
  rfl

theorem toStmt_bare (t : StepTest) : t.bare.toStmt = t.toStmt := by
  unfold toStmt
  rw [body_bare]
  rfl

end StepTest

/-- What becomes of a step, without failed checks and without reports. -/
def Setting.bareTest? (setting : Setting) (step : Step) : Option StepTest :=
  (setting.endpoint? step).map fun e => (setting.testOf "" .empty step e).bare

section

variable (setting : Setting) (workflowId workflowId' : String) (written written' : ContextStore) (step : Step)

/-- **The bare test** depends on the step and its operation only, and not on the criteria that do not compile. -/
theorem bare_testOf (e : Endpoint) : (setting.testOf workflowId written step e).bare =
    (setting.testOf workflowId' written' (step.withoutFailing setting.defaultContext) e).bare := by
  have hsucceeds : ∀ c : Criterion, Check.succeeds ⟨c, (c.assertions setting.defaultContext step.scope).1⟩ =
      c.compiles setting.defaultContext := fun c => c.isOk_assertions _ _
  have hchecks : (setting.testOf workflowId written step e).checks.filter Check.succeeds =
      (setting.testOf workflowId' written' (step.withoutFailing setting.defaultContext) e).checks.filter
        Check.succeeds := by
    have hscope : (step.withoutFailing setting.defaultContext).scope = step.scope := rfl
    have hcriteria : (step.withoutFailing setting.defaultContext).successCriteria =
        step.successCriteria.filter (Criterion.compiles setting.defaultContext) := rfl
    rw [checks_testOf, checks_testOf, List.filter_map, List.filter_map, hscope, hcriteria]
    simp only [Function.comp_def, hsucceeds, List.filter_filter, Bool.and_self]
  -- The outputs are lowered behind the criteria, but only the log tells what those were.
  have hfresh (cs : List Criterion) :
      (compileChecks setting.defaultContext cs .empty step.scope).2.fresh = step.scope.fresh :=
    (appendsOnly_compileChecks setting.defaultContext cs .empty).fresh_snd step.scope
  have hwrites : (setting.testOf workflowId written step e).writes =
      (setting.testOf workflowId' written' (step.withoutFailing setting.defaultContext) e).writes :=
    (appendsOnly_lowerOutputs step.stepId step.outputs).fst_congr ((hfresh _).trans (hfresh _).symm)
  simp only [StepTest.bare, StepTest.mk.injEq]
  exact ⟨rfl, rfl, rfl, rfl, hchecks, hwrites, trivial⟩

theorem bareTest?_withoutFailing :
    setting.bareTest? (step.withoutFailing setting.defaultContext) = setting.bareTest? step := by
  unfold Setting.bareTest?
  have hendpoint : setting.endpoint? (step.withoutFailing setting.defaultContext) = setting.endpoint? step := rfl
  rw [hendpoint]
  exact Option.map_congr fun e _ => (bare_testOf setting "" "" .empty .empty step e).symm

theorem map_bare_test? : (StepOutcome.test? (setting.testOf? workflowId written step)).map StepTest.bare =
    setting.bareTest? step := by
  rw [test?_testOf?, Option.map_map]
  refine (Option.map_congr fun e _ => ?_).trans (bareTest?_withoutFailing setting step)
  exact bare_testOf setting workflowId "" written .empty step e

theorem isSome_bareTest? : (setting.bareTest? step).isSome = setting.finds step := Option.isSome_map

end

/-! ## Statements of a step -/

/-- The statements that are made of a step, if it has a test. -/
def StepOutcome.body? (o : StepOutcome) : Option (List Stmt) := o.test?.map StepTest.body

theorem body?_testOf? (setting : Setting) (workflowId : String) (written : ContextStore) (step : Step) :
    StepOutcome.body? (setting.testOf? workflowId written step) = (setting.bareTest? step).map StepTest.body := by
  rw [← map_bare_test? setting workflowId written step, Option.map_map]
  exact Option.map_congr fun t _ => t.body_bare.symm

/-- **The statements of a step** are the same in all workflows that have the step, at any place and whatever is on
record. -/
theorem getElem?_bodies (setting : Setting) (emission emission' : Emission) {w w' : Workflow} {i j : Nat}
    (h : w.steps[i]? = w'.steps[j]?) :
    (setting.emitWorkflow w emission).1.outcomes[i]?.map StepOutcome.body? =
      (setting.emitWorkflow w' emission').1.outcomes[j]?.map StepOutcome.body? := by
  have hbody (emission : Emission) (v : Workflow) (k : Nat) :
      (setting.emitWorkflow v emission).1.outcomes[k]?.map StepOutcome.body? =
        v.steps[k]?.map fun step => (setting.bareTest? step).map StepTest.body := by
    have halone : (setting.emitWorkflow v emission).1 = setting.workflowTest v :=
      (setting.records_emitWorkflow v).fst_eq emission
    rw [halone, outcomes_workflowTest, getElem?_outcomes, Option.map_map]
    exact Option.map_congr fun step _ => body?_testOf? setting _ _ step
  rw [hbody, hbody, h]

/-! ## Whole programs -/

namespace WorkflowTest

/-- The bare tests of the steps that have one. -/
def bare (t : WorkflowTest) : WorkflowTest := ⟨t.title, (t.steps.map StepTest.bare).map .ok⟩

theorem steps_bare (t : WorkflowTest) : t.bare.steps = t.steps.map StepTest.bare := by
  have htest : StepOutcome.test? ∘ Except.ok = some := rfl
  rw [bare, steps, List.filterMap_map, htest, List.filterMap_some]

theorem checks_bare (t : WorkflowTest) : t.bare.checks = t.checks.filter Check.succeeds := by
  rw [checks_eq, checks_eq, steps_bare, List.flatMap_map, List.filter_flatMap]
  rfl

theorem toStmt_bare (setting : Setting) (t : WorkflowTest) : t.bare.toStmt setting = t.toStmt setting := by
  have hsteps : t.bare.steps.map StepTest.toStmt = t.steps.map StepTest.toStmt := by
    rw [steps_bare, List.map_map]
    exact congrArg t.steps.map (funext StepTest.toStmt_bare)
  rw [toStmt, toStmt, hsteps]
  rfl

end WorkflowTest

namespace Suite

/-- The suite with bare tests, and without reports. -/
def bare (s : Suite) : Suite where
  setting := s.setting
  tests := s.tests.map WorkflowTest.bare
  emission := { s.emission with diagnostics := [] }

theorem used_bare (s : Suite) : s.bare.used = s.used := rfl

theorem program?_bare (s : Suite) : s.bare.program? = s.program? := by
  have hbody : s.bare.tests.map (WorkflowTest.toStmt s.bare.setting) = s.tests.map (WorkflowTest.toStmt s.setting) := by
    rw [bare, List.map_map]
    exact congrArg s.tests.map (funext (WorkflowTest.toStmt_bare s.setting))
  rw [program?, program?, hbody]
  rfl

/-- What is on record is what the bare tests use. -/
theorem emission_bare_generate (document : WorkflowDocument) (api : ApiDocument) (options : Options) :
    (generate document api options).bare.emission =
      Emission.empty.record ((generate document api options).bare.tests.flatMap WorkflowTest.checks) [] := by
  have hchecks : (generate document api options).bare.tests.flatMap WorkflowTest.checks =
      ((generate document api options).tests.flatMap WorkflowTest.checks).filter Check.succeeds := by
    rw [bare, List.flatMap_map, List.filter_flatMap]
    exact congrArg (List.flatMap · _) (funext WorkflowTest.checks_bare)
  rw [hchecks, Emission.record_filter_succeeds, bare, emission_generate]
  rfl

end Suite

section

variable (setting : Setting)

theorem map_bare_steps (workflowId : String) (steps : List Step) (written : ContextStore) :
    ((setting.outcomes workflowId written steps).filterMap StepOutcome.test?).map StepTest.bare =
      steps.filterMap setting.bareTest? := by
  induction steps generalizing written with
  | nil => rfl
  | cons step steps ih =>
    rw [Setting.outcomes_cons, List.filterMap_cons, List.filterMap_cons,
      ← map_bare_test? setting workflowId written step]
    cases StepOutcome.test? (setting.testOf? workflowId written step) with
    | none => exact ih _
    | some t => exact congrArg (t.bare :: ·) (ih _)

/-- What is skipped has no bare test in any case. -/
theorem filterMap_bareTest?_withoutSkipped (w : Workflow) :
    (w.withoutSkipped setting).steps.filterMap setting.bareTest? = w.steps.filterMap setting.bareTest? := by
  have hfound (step : Step) : (Option.guard setting.finds step).bind
      (setting.bareTest? ∘ Step.withoutFailing setting.defaultContext) = setting.bareTest? step := by
    rw [Function.comp_def]
    simp only [bareTest?_withoutFailing]
    cases hstep : setting.finds step with
    | true => simp [Option.guard, hstep]
    | false =>
      have hnone : setting.bareTest? step = none := by
        rw [← Option.isSome_eq_false_iff.trans Option.isNone_iff_eq_none, isSome_bareTest?, hstep]
      simp [Option.guard, hstep, hnone]
  rw [Workflow.withoutSkipped, List.filterMap_map, ← List.filterMap_eq_filter, List.filterMap_filterMap]
  exact congrArg (w.steps.filterMap ·) (funext hfound)

theorem bare_workflowTest (w : Workflow) :
    (setting.workflowTest (w.withoutSkipped setting)).bare = (setting.workflowTest w).bare := by
  have hsteps : (setting.workflowTest (w.withoutSkipped setting)).steps.map StepTest.bare =
      (setting.workflowTest w).steps.map StepTest.bare :=
    (map_bare_steps setting _ _ .empty).trans
      ((filterMap_bareTest?_withoutSkipped setting w).trans (map_bare_steps setting _ _ .empty).symm)
  rw [WorkflowTest.bare, WorkflowTest.bare, hsteps]
  rfl

end

/-- **Skipping is exact.** A document gives the program, and uses the kinds of assertions, that it gives and uses
without the steps whose operation is not found and the criteria that do not compile; and the statements of a step are
the same in all workflows that have the step, at any place and whatever is on record. -/
theorem program_withoutSkipped (document : WorkflowDocument) (api : ApiDocument) (options : Options) :
    (Suite.generate (document.withoutSkipped (.ofDocument api options)) api options).program? =
        (Suite.generate document api options).program? ∧
      (Suite.generate (document.withoutSkipped (.ofDocument api options)) api options).used =
        (Suite.generate document api options).used ∧
      ∀ (emission emission' : Emission) (w w' : Workflow) (i j : Nat), w.steps[i]? = w'.steps[j]? →
        ((Setting.ofDocument api options).emitWorkflow w emission).1.outcomes[i]?.map StepOutcome.body? =
          ((Setting.ofDocument api options).emitWorkflow w' emission').1.outcomes[j]?.map StepOutcome.body? := by
  have htests : (Suite.generate (document.withoutSkipped (.ofDocument api options)) api options).bare.tests =
      (Suite.generate document api options).bare.tests := by
    simp only [Suite.bare, Suite.tests_generate, WorkflowDocument.withoutSkipped, List.map_map, Function.comp_def,
      bare_workflowTest]
  have hemission : (Suite.generate (document.withoutSkipped (.ofDocument api options)) api options).bare.emission =
      (Suite.generate document api options).bare.emission := by
    rw [Suite.emission_bare_generate, Suite.emission_bare_generate, htests]
  have hbare : (Suite.generate (document.withoutSkipped (.ofDocument api options)) api options).bare =
      (Suite.generate document api options).bare := by
    rw [Suite.mk.injEq]
    exact ⟨rfl, htests, hemission⟩
  refine ⟨?_, ?_, fun emission emission' w w' i j h => getElem?_bodies _ emission emission' h⟩
  · rw [← Suite.program?_bare, hbare, Suite.program?_bare]
  · rw [← Suite.used_bare, hbare, Suite.used_bare]

end FlowSuite
