import FlowSuite.Proofs.TestCase.BindingOrder
import FlowSuite.TestCase.Suite

/-!
# Outcomes of steps

A step has a test exactly if its operation is found (`testOf?_eq_ok_iff`). The outcome at an index is that of the step
at this index, after the keys that the outcomes in front of it write (`getElem?_outcomes`); so the tests of a workflow
are the tests of its steps whose operation is found (`mem_steps_iff`).
-/

namespace FlowSuite

/-- The operation that a step calls, where it is found. -/
def Setting.endpoint? (setting : Setting) (step : Step) : Option Endpoint :=
  step.operationId.bind setting.operations.get?

section

variable {setting : Setting} {workflowId : String} {written : ContextStore} {step : Step} {e : Endpoint}

/-- The checks of a step: all its criteria, each compiled in the scope behind the parameters. -/
theorem checks_testOf : (setting.testOf workflowId written step e).checks =
    step.successCriteria.map fun c => ⟨c, (c.assertions setting.defaultContext step.scope).1⟩ :=
  compileChecks_fst setting.defaultContext step.successCriteria .empty step.scope

theorem test?_testOf? : StepOutcome.test? (setting.testOf? workflowId written step) =
    (setting.endpoint? step).map (setting.testOf workflowId written step) := by
  unfold Setting.testOf? Setting.emitStep Setting.endpoint?
  cases step.operationId with
  | none => rfl
  | some id =>
    dsimp only [Option.bind_some]
    cases setting.operations.get? id <;> rfl

theorem StepOutcome.test?_eq_some_iff {o : StepOutcome} {t : StepTest} : o.test? = some t ↔ o = .ok t := by
  cases o <;> simp [StepOutcome.test?]

theorem testOf?_eq_ok_iff {t : StepTest} : setting.testOf? workflowId written step = .ok t ↔
    ∃ e, setting.endpoint? step = some e ∧ setting.testOf workflowId written step e = t := by
  rw [← StepOutcome.test?_eq_some_iff, test?_testOf?, Option.map_eq_some_iff]

end

/-- The keys that outcomes write. -/
def writtenBy (outcomes : List StepOutcome) : List String := outcomes.flatMap StepOutcome.writes

/-- **The outcome at an index** is that of the step there, after what the outcomes in front of it write. -/
theorem getElem?_outcomes (setting : Setting) (workflowId : String) (steps : List Step) (written : ContextStore)
    (i : Nat) : (setting.outcomes workflowId written steps)[i]? =
      steps[i]?.map (setting.testOf? workflowId
        (written.recordAll (writtenBy ((setting.outcomes workflowId written steps).take i)))) := by
  induction steps generalizing written i with
  | nil => rfl
  | cons step steps ih =>
    rw [Setting.outcomes_cons]
    cases i with
    | zero => rfl
    | succ i => simp [ih, writtenBy, ContextStore.recordAll_append]

theorem WorkflowTest.mem_steps {test : WorkflowTest} {t : StepTest} : t ∈ test.steps ↔ .ok t ∈ test.outcomes := by
  simp only [WorkflowTest.steps, List.mem_filterMap, StepOutcome.test?_eq_some_iff, exists_eq_right]

theorem outcomes_workflowTest (setting : Setting) (w : Workflow) :
    (setting.workflowTest w).outcomes = setting.outcomes w.workflowId .empty w.steps := rfl

theorem getElem?_outcomes_eq_ok_iff {setting : Setting} {w : Workflow} {i : Nat} {t : StepTest} :
    (setting.workflowTest w).outcomes[i]? = some (.ok t) ↔
      ∃ step, w.steps[i]? = some step ∧ ∃ e, setting.endpoint? step = some e ∧
        setting.testOf w.workflowId
          (.recordAll .empty (writtenBy ((setting.workflowTest w).outcomes.take i))) step e = t := by
  rw [outcomes_workflowTest, getElem?_outcomes]
  simp only [Option.map_eq_some_iff, testOf?_eq_ok_iff]

/-- **The tests of a workflow** are those of its steps whose operation is found. -/
theorem mem_steps_iff {setting : Setting} {w : Workflow} {t : StepTest} : t ∈ (setting.workflowTest w).steps ↔
    ∃ i step, w.steps[i]? = some step ∧ ∃ e, setting.endpoint? step = some e ∧
      setting.testOf w.workflowId
        (.recordAll .empty (writtenBy ((setting.workflowTest w).outcomes.take i))) step e = t := by
  rw [WorkflowTest.mem_steps, List.mem_iff_getElem?]
  exact exists_congr fun i => getElem?_outcomes_eq_ok_iff

end FlowSuite
