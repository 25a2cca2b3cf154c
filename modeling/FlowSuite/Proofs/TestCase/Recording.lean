import FlowSuite.Proofs.TestCase.Logging
import FlowSuite.TestCase.Suite

/-!
# What goes on record

One record goes through all workflows, steps and criteria while tests are emitted. What is on it makes no difference to
the tests, and a test puts on it what its checks use and what it reports, nothing else:

* a criterion that compiles puts its kinds of assertions on record, and that it queries a path if it does; one that
  does not compile puts nothing on record (`Emission.check_eq`);
* `Records` says of a pass that it makes the same on every record, and adds just what its results use and report. One
  pass behind another keeps that (`Records.cons`), so it goes from criteria to steps, workflows and documents;
* a suite has the tests of its workflows by themselves, and its record is what they use and report
  (`Suite.tests_generate`, `Suite.emission_generate`).
-/

namespace FlowSuite

/-! ## Records -/

theorem UsedKinds.addAll_append (used : UsedKinds) (as more : List Assertion) :
    used.addAll (as ++ more) = (used.addAll as).addAll more :=
  List.foldl_append

namespace Emission

/-- The record with what checks use, and with reports. -/
def record (emission : Emission) (checks : List Check) (reports : List Diagnostic) : Emission where
  used := emission.used.addAll (checks.flatMap Check.assertions)
  queriesPath := emission.queriesPath || checks.any Check.queriesPath
  diagnostics := emission.diagnostics ++ reports

theorem record_nil (emission : Emission) (reports : List Diagnostic) :
    emission.record [] reports = emission.report reports := by
  simp [record, report, UsedKinds.addAll]

@[simp] theorem report_nil (emission : Emission) : emission.report [] = emission := by
  rw [report, List.append_nil]

theorem report_record (emission : Emission) (checks : List Check) (reports : List Diagnostic) :
    (emission.record checks []).report reports = emission.record checks reports := by
  simp [record, report]

theorem record_record (emission : Emission) (checks more : List Check) (reports others : List Diagnostic) :
    (emission.record checks reports).record more others = emission.record (checks ++ more) (reports ++ others) := by
  simp only [record, List.flatMap_append, UsedKinds.addAll_append, List.any_append, Bool.or_assoc, List.append_assoc]

/-! ## Criteria -/

/-- **Compiling a criterion** puts on record what its check uses, which is nothing where it does not compile. -/
theorem check_eq (emission : Emission) (context : String) (c : Criterion) (s : Scope) :
    emission.check context c s =
      ((⟨c, (c.assertions context s).1⟩, emission.record [⟨c, (c.assertions context s).1⟩] []),
        (c.assertions context s).2) := by
  unfold check Criterion.compileIn
  rcases c.assertions context s with ⟨e | as, s'⟩
  · simp [record, Check.assertions, Check.queriesPath, UsedKinds.addAll]
  · simp [record, Check.assertions, Check.queriesPath]

end Emission

section

variable (context : String)

theorem compileChecks_cons (c : Criterion) (cs : List Criterion) (emission : Emission) :
    compileChecks context (c :: cs) emission = fun s =>
      let check : Check := ⟨c, (c.assertions context s).1⟩
      let rest := compileChecks context cs (emission.record [check] []) (c.assertions context s).2
      ((check :: rest.1.1, rest.1.2), rest.2) := by
  funext s
  rw [compileChecks, Emission.check_eq]

theorem appendsOnly_compileChecks : ∀ (cs : List Criterion) (emission : Emission),
    AppendsOnly (compileChecks context cs emission)
  | [], _ => .pure _
  | c :: cs, emission => by
    rw [compileChecks_cons]
    exact (c.appendsOnly_assertions context).bind fun result =>
      (appendsOnly_compileChecks cs (emission.record [⟨c, result⟩] [])).map fun rest =>
        (Check.mk c result :: rest.1, rest.2)

/-- Every criterion compiles in the scope and on the record that the criteria in front of it leave as it does in the
first scope. -/
theorem compileChecks_fst : ∀ (cs : List Criterion) (emission : Emission) (s : Scope),
    (compileChecks context cs emission s).1.1 = cs.map fun c => ⟨c, (c.assertions context s).1⟩
  | [], _, _ => rfl
  | c :: cs, emission, s => by
    have hfresh := (c.appendsOnly_assertions context).fresh_snd s
    have hresult (c' : Criterion) :
        (c'.assertions context (c.assertions context s).2).1 = (c'.assertions context s).1 :=
      (c'.appendsOnly_assertions context).fst_congr hfresh
    rw [compileChecks_cons, List.map_cons]
    simp only [compileChecks_fst cs, hresult]

/-- The checks of a step go on record. -/
theorem emission_compileChecks : ∀ (cs : List Criterion) (emission : Emission) (s : Scope),
    (compileChecks context cs emission s).1.2 = emission.record (compileChecks context cs emission s).1.1 []
  | [], emission, _ => by rw [compileChecks, Emission.record_nil, Emission.report_nil]
  | c :: cs, emission, s => by
    rw [compileChecks_cons]
    dsimp only
    rw [emission_compileChecks cs, Emission.record_record]
    rfl

/-- The record makes no difference to the scope that criteria leave. -/
theorem scope_compileChecks : ∀ (cs : List Criterion) (emission other : Emission) (s : Scope),
    (compileChecks context cs emission s).2 = (compileChecks context cs other s).2
  | [], _, _, _ => rfl
  | c :: cs, emission, other, s => by
    rw [compileChecks_cons, compileChecks_cons]
    exact scope_compileChecks cs _ _ _

/-- **Compiling the criteria of a step** makes the same on every record, and puts the checks on it. -/
theorem compileChecks_eq (cs : List Criterion) (emission : Emission) (s : Scope) :
    compileChecks context cs emission s =
      (((compileChecks context cs .empty s).1.1, emission.record (compileChecks context cs .empty s).1.1 []),
        (compileChecks context cs .empty s).2) := by
  have hsame : (compileChecks context cs emission s).1.1 = (compileChecks context cs .empty s).1.1 := by
    rw [compileChecks_fst, compileChecks_fst]
  refine Prod.ext (Prod.ext hsame ?_) (scope_compileChecks context cs emission .empty s)
  rw [emission_compileChecks, hsame]

end

/-! ## Passes -/

section

variable {α : Type} {checks : α → List Check} {reports : α → List Diagnostic} {f : Emission → α × Emission}

/-- Makes on every record what it makes on an empty one, and puts on record the checks and the reports of what it
makes. -/
def Records (checks : α → List Check) (reports : α → List Diagnostic) (f : Emission → α × Emission) : Prop :=
  ∀ emission, f emission = ((f .empty).1, emission.record (checks (f .empty).1) (reports (f .empty).1))

namespace Records

/-- What is made does not depend on the record. -/
theorem fst_eq (hf : Records checks reports f) (emission : Emission) : (f emission).1 = (f .empty).1 := by
  rw [hf emission]

/-- Nothing is made. -/
theorem nil : Records (List.flatMap checks) (List.flatMap reports) fun emission => (([] : List α), emission) :=
  fun emission => Prod.ext rfl ((emission.record_nil []).trans emission.report_nil).symm

/-- **One pass behind another**, which may depend on what the first one makes. -/
theorem cons {g : α → Emission → List α × Emission} (hf : Records checks reports f)
    (hg : ∀ a, Records (List.flatMap checks) (List.flatMap reports) (g a)) :
    Records (List.flatMap checks) (List.flatMap reports) fun emission =>
      ((f emission).1 :: (g (f emission).1 (f emission).2).1, (g (f emission).1 (f emission).2).2) := by
  intro emission
  have hempty : (g (f .empty).1 (f .empty).2).1 = (g (f .empty).1 .empty).1 := (hg _).fst_eq _
  dsimp only
  rw [hf emission, hg (f .empty).1 (emission.record _ _), hempty, Emission.record_record]
  rfl

end Records

end

/-! ## Steps -/

/-- The checks of a step. -/
def StepOutcome.checks : StepOutcome → List Check
  | .ok t => t.checks
  | .error _ => []

namespace Setting

variable (setting : Setting) (workflowId : String)

theorem records_emit (written : ContextStore) (step : Step) (e : Endpoint) :
    Records StepTest.checks StepTest.diagnostics (setting.emit workflowId written step e) := by
  intro emission
  simp only [emit]
  rw [compileChecks_eq _ _ emission]
  simp only [Emission.report_record]

/-- **Emitting a step** puts the checks and the reports of its test on record; a step that is skipped is reported. -/
theorem records_emitStep (written : ContextStore) (step : Step) :
    Records StepOutcome.checks StepOutcome.diagnostics (setting.emitStep workflowId written step) := by
  intro emission
  unfold emitStep
  cases step.operationId with
  | none => exact Prod.ext rfl (Emission.record_nil emission _).symm
  | some id =>
    cases he : setting.operations.get? id with
    | none =>
      simp only [he]
      exact Prod.ext rfl (Emission.record_nil emission _).symm
    | some e =>
      simp only [he]
      rw [setting.records_emit workflowId written step e emission]
      rfl

theorem records_emitSteps (written : ContextStore) (steps : List Step) :
    Records (List.flatMap StepOutcome.checks) (List.flatMap StepOutcome.diagnostics)
      (setting.emitSteps workflowId written steps) := by
  induction steps generalizing written with
  | nil => exact Records.nil
  | cons step steps ih =>
    exact (setting.records_emitStep workflowId written step).cons fun outcome =>
      ih (written.recordAll (StepOutcome.writes outcome))

theorem outcomes_nil (written : ContextStore) : setting.outcomes workflowId written [] = [] := rfl

theorem outcomes_cons (written : ContextStore) (step : Step) (steps : List Step) :
    setting.outcomes workflowId written (step :: steps) =
      setting.testOf? workflowId written step ::
        setting.outcomes workflowId
          (written.recordAll (StepOutcome.writes (setting.testOf? workflowId written step))) steps :=
  congrArg (List.cons _) ((setting.records_emitSteps workflowId _ steps).fst_eq _)

end Setting

/-! ## Workflows -/

namespace WorkflowTest

/-- The checks of all steps. -/
def checks (t : WorkflowTest) : List Check := t.outcomes.flatMap StepOutcome.checks

/-- The reports on all steps. -/
def diagnostics (t : WorkflowTest) : List Diagnostic := t.outcomes.flatMap StepOutcome.diagnostics

theorem checks_eq (t : WorkflowTest) : t.checks = t.steps.flatMap StepTest.checks := by
  unfold checks steps
  induction t.outcomes with
  | nil => rfl
  | cons outcome outcomes ih =>
    rw [List.flatMap_cons, ih]
    cases outcome <;> rfl

end WorkflowTest

namespace Setting

variable (setting : Setting)

theorem records_emitWorkflow (w : Workflow) :
    Records WorkflowTest.checks WorkflowTest.diagnostics (setting.emitWorkflow w) := by
  intro emission
  simp only [emitWorkflow]
  rw [setting.records_emitSteps w.workflowId .empty w.steps emission]
  rfl

theorem records_emitWorkflows (ws : List Workflow) :
    Records (List.flatMap WorkflowTest.checks) (List.flatMap WorkflowTest.diagnostics) (setting.emitWorkflows ws) := by
  induction ws with
  | nil => exact Records.nil
  | cons w ws ih => exact (setting.records_emitWorkflow w).cons fun _ => ih

theorem fst_emitWorkflows (ws : List Workflow) (emission : Emission) :
    (setting.emitWorkflows ws emission).1 = ws.map setting.workflowTest := by
  induction ws generalizing emission with
  | nil => rfl
  | cons w ws ih =>
    rw [List.map_cons, ← ih (setting.emitWorkflow w emission).2]
    exact congrArg (List.cons · _) ((setting.records_emitWorkflow w).fst_eq emission)

end Setting

/-! ## Suites -/

namespace Suite

variable (document : WorkflowDocument) (api : ApiDocument) (options : Options)

/-- **A suite has the tests of its workflows by themselves.** -/
theorem tests_generate : (generate document api options).tests =
    document.workflows.map (Setting.ofDocument api options).workflowTest :=
  Setting.fst_emitWorkflows _ _ _

/-- **The record of a suite** is what its tests use and report. -/
theorem emission_generate : (generate document api options).emission =
    Emission.empty.record ((generate document api options).tests.flatMap WorkflowTest.checks)
      ((generate document api options).tests.flatMap WorkflowTest.diagnostics) :=
  congrArg Prod.snd ((Setting.ofDocument api options).records_emitWorkflows document.workflows .empty)

end Suite

end FlowSuite
