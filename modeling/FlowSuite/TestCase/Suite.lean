import FlowSuite.Script.Printer
import FlowSuite.TestCase.Step

/-!
# Test suites

The test of a workflow runs the tests of its steps one after the other, over one context. A step whose operation is
not found is left out. A suite has one test for each workflow, and what was put on record while they were emitted; a
suite without any assertion on record is no program.
-/

namespace FlowSuite

open Script (Expr Stmt Import Program)

/-- Emits the tests of steps, each on top of what the steps before it write and put on record. -/
def Setting.emitSteps (setting : Setting) (workflowId : String) : (written : ContextStore) → List Step → Emission →
    List StepOutcome × Emission
  | _, [], emission => ([], emission)
  | written, step :: steps, emission =>
    let (outcome, emission) := setting.emitStep workflowId written step emission
    let (outcomes, emission) :=
      setting.emitSteps workflowId (written.recordAll (StepOutcome.writes outcome)) steps emission
    (outcome :: outcomes, emission)

/-- The outcomes of steps by themselves, each after the keys that the steps before it write. -/
def Setting.outcomes (setting : Setting) (workflowId : String) (written : ContextStore) (steps : List Step) :
    List StepOutcome :=
  (setting.emitSteps workflowId written steps .empty).1

/-- The test of a workflow. -/
structure WorkflowTest where
  title : String
  outcomes : List StepOutcome

namespace WorkflowTest

/-- The tests of the steps that have one. -/
def steps (t : WorkflowTest) : List StepTest := t.outcomes.filterMap StepOutcome.test?

/-- The constants that all steps share. -/
def environment (setting : Setting) : List Stmt :=
  [ .const "serverUrl" none (.string setting.serverUrl),
    .const "apiKey" none
      (.call (.property (.property (.ident "Deno") "env") "get") [.string setting.apiKeyEnv]),
    .const "context" (some "Record<string, unknown>") (.object []) ]

/-- The statement of the test, with a blank line between each two steps. -/
def toStmt (setting : Setting) (t : WorkflowTest) : Stmt :=
  .expr <| .call (.property (.ident "Deno") "test")
    [ .string t.title,
      .arrow true ["test"] (environment setting ++ (t.steps.map StepTest.toStmt).intersperse .empty) ]

end WorkflowTest

/-- Emits the test of a workflow. -/
def Setting.emitWorkflow (setting : Setting) (w : Workflow) (emission : Emission) : WorkflowTest × Emission :=
  let (outcomes, emission) := setting.emitSteps w.workflowId .empty w.steps emission
  (⟨w.title, outcomes⟩, emission)

/-- The test of a workflow by itself. -/
def Setting.workflowTest (setting : Setting) (w : Workflow) : WorkflowTest := (setting.emitWorkflow w .empty).1

/-- Emits the tests of workflows, one after the other. -/
def Setting.emitWorkflows (setting : Setting) : List Workflow → Emission → List WorkflowTest × Emission
  | [], emission => ([], emission)
  | w :: ws, emission =>
    let (test, emission) := setting.emitWorkflow w emission
    let (tests, emission) := setting.emitWorkflows ws emission
    (test :: tests, emission)

/-- The tests of the workflows of a document, and what is on record behind them. -/
structure Suite where
  setting : Setting
  tests : List WorkflowTest
  emission : Emission

namespace Suite

/-- The comment at the start of every program. -/
def header : String :=
  "This test file was generated from an arazzo.yaml document.\nDo not edit this file manually."

/-- The module that reads the environment. -/
def environmentModule : String := "jsr:@std/dotenv/load"

/-- The module that queries paths. -/
def pathModule : String := "npm:jsonpath-plus"

/-- The module with the functions of assertions. -/
def assertionModule : String := "jsr:@std/assert"

/-- The suite for the workflows of a document on an API. -/
def generate (document : WorkflowDocument) (api : ApiDocument) (options : Options) : Suite :=
  let setting := Setting.ofDocument api options
  let (tests, emission) := setting.emitWorkflows document.workflows .empty
  ⟨setting, tests, emission⟩

/-- All reports. -/
def diagnostics (s : Suite) : List Diagnostic := s.emission.diagnostics

/-- There is an error among the reports. -/
def hasErrors (s : Suite) : Bool := s.diagnostics.any Diagnostic.isError

/-- The kinds of all assertions. -/
def used (s : Suite) : UsedKinds := s.emission.used

/-- Queries a path. -/
def queriesPath (s : Suite) : Bool := s.emission.queriesPath

/-- The imports of the program. -/
def imports (s : Suite) : List Import :=
  ⟨[], environmentModule⟩ :: (if s.queriesPath then [⟨["JSONPath"], pathModule⟩] else []) ++
    [⟨s.used.functions, assertionModule⟩]

/-- The program of the suite, if it has any assertion. -/
def program? (s : Suite) : Option Program :=
  if s.used.kinds.isEmpty then none
  else some ⟨some header, s.imports, s.tests.map (WorkflowTest.toStmt s.setting)⟩

/-- The text of the program. -/
def text? (s : Suite) : Option String := s.program?.map fun p => String.ofList (p.text 0)

end Suite

end FlowSuite
