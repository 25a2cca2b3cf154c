import FlowSuite.TestCase.Emission
import FlowSuite.TestCase.Request
import FlowSuite.TestCase.Setting

/-!
# The test of a step

The test of a step binds its parameters and its body, sends the request, decodes the answer, makes the assertions of
its criteria, and writes its outputs to the context, in this order (`StepTest.body`). A criterion that does not compile
is left out and reported. So is every key that is read before an earlier step writes it, and every expression that is
left undefined.

A step is emitted on top of a record (`Setting.emitStep`). By itself, on top of an empty one, it has the same test
(`Setting.testOf?`).
-/

namespace FlowSuite

open Script (Expr Stmt)

/-- A value that is kept under a key. -/
structure ContextWrite where
  key : String
  value : Expr

/-- The statement that keeps it. -/
def ContextWrite.toStmt (w : ContextWrite) : Stmt := .assign (.element (.ident "context") (.string w.key)) w.value

/-- The values that a step keeps. -/
def lowerOutputs (stepId : String) : List (String × String) → Scope → List ContextWrite × Scope
  | [], s => ([], s)
  | (name, expression) :: outputs, s =>
    let (value, s) := lowerRuntime expression s
    let (writes, s) := lowerOutputs stepId outputs s
    (⟨outputKey stepId name, value⟩ :: writes, s)

/-- The test of a step. -/
structure StepTest where
  title : String
  constants : List Stmt
  payload : Option Expr
  request : Expr
  checks : List Check
  writes : List ContextWrite
  diagnostics : List Diagnostic

namespace StepTest

/-- All assertions of the test. -/
def assertions (t : StepTest) : List Assertion := t.checks.flatMap Check.assertions

/-- The statements of the test. -/
def body (t : StepTest) : List Stmt :=
  t.constants ++
    (t.payload.map (Stmt.const "payload" none)).toList ++
    [ .const "response" none t.request,
      .const "data" none (.await (.call (.property (.ident "response") "json") [])) ] ++
    t.assertions.map Assertion.toStmt ++
    t.writes.map ContextWrite.toStmt

/-- The statement that runs the test inside the test of its workflow. -/
def toStmt (t : StepTest) : Stmt :=
  .expr (.await (.call (.property (.ident "test") "step") [.string t.title, .arrow true [] t.body]))

end StepTest

/-- Emits the test of a step whose operation is found; `written` has the keys that earlier steps write. -/
def Setting.emit (setting : Setting) (workflowId : String) (written : ContextStore) (step : Step) (e : Endpoint)
    (emission : Emission) : StepTest × Emission :=
  let warn (message : String) := Diagnostic.warning workflowId step.stepId message
  let (bound, s) := bindParameters step.parameters stepLocals (.ofStep step.stepId step.payload.isSome)
  let (url, unbound) := Path.fill e.path bound.path ((Script.Template.ofText "").push (.ident "serverUrl") "")
  let ((checks, emission), s) := compileChecks setting.defaultContext step.successCriteria emission s
  let (writes, s) := lowerOutputs step.stepId step.outputs s
  let diagnostics :=
    bound.warnings.map warn ++
    unbound.map (fun name => warn ("path placeholder '\x7b" ++ name ++ "\x7d' has no matching parameter")) ++
    checks.filterMap (Check.diagnostic? workflowId step.stepId) ++
    (s.reads.filter (!written.isWritten ·)).map
      (fun key => warn ("context key '" ++ key ++ "' is read before any earlier step writes it")) ++
    s.unresolved.map (fun u =>
      { warn ("'" ++ u.expression ++ "' resolved to undefined: " ++ u.reason) with source := some u.expression })
  ({ title := step.title
     constants := bound.constants
     payload := step.payload.map Json.lower
     request := requestCall e.method (addQuery "?" bound.query url) (commonHeaders setting.security ++ bound.headers)
       step.payload.isSome
     checks
     writes
     diagnostics }, emission.report diagnostics)

/-- The test of a step whose operation is found, by itself. -/
def Setting.testOf (setting : Setting) (workflowId : String) (written : ContextStore) (step : Step) (e : Endpoint) :
    StepTest :=
  (setting.emit workflowId written step e .empty).1

/-- What became of a step: its test, or the report that it has none. -/
abbrev StepOutcome := Except Diagnostic StepTest

namespace StepOutcome

/-- The reports on a step. -/
def diagnostics : StepOutcome → List Diagnostic
  | .ok t => t.diagnostics
  | .error d => [d]

/-- The keys that a step writes. -/
def writes : StepOutcome → List String
  | .ok t => t.writes.map ContextWrite.key
  | .error _ => []

/-- The test of a step, if it has one. -/
def test? : StepOutcome → Option StepTest
  | .ok t => some t
  | .error _ => none

end StepOutcome

/-- Emits the test of a step, if its operation is found. -/
def Setting.emitStep (setting : Setting) (workflowId : String) (written : ContextStore) (step : Step)
    (emission : Emission) : StepOutcome × Emission :=
  let skipped (message : String) : StepOutcome × Emission :=
    let d := Diagnostic.warning workflowId step.stepId message
    (.error d, emission.report [d])
  match step.operationId with
  | none => skipped "step has no operationId, skipped"
  | some id =>
    match setting.operations.get? id with
    | none => skipped ("operation not found for operationId '" ++ id ++ "', step skipped")
    | some e =>
      let (t, emission) := setting.emit workflowId written step e emission
      (.ok t, emission)

/-- The test of a step by itself, or why it has none. -/
def Setting.testOf? (setting : Setting) (workflowId : String) (written : ContextStore) (step : Step) : StepOutcome :=
  (setting.emitStep workflowId written step .empty).1

end FlowSuite
