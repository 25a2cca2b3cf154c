import FlowSuite.Criterion.Compile

/-!
# Diagnostics

What was left out of the tests or could not be resolved, and in which step.
-/

namespace FlowSuite

/-- How bad it is. -/
inductive Severity where
  | warning
  | error
deriving DecidableEq, Repr

def Severity.name : Severity → String
  | warning => "warning"
  | error => "error"

/-- A report on a step. -/
structure Diagnostic where
  severity : Severity
  code : Option String
  workflowId : String
  stepId : Option String
  message : String
  /-- The text that the span points into. -/
  source : Option String
  span : Option Span
deriving DecidableEq, Repr

namespace Diagnostic

/-- A warning on a step. -/
def warning (workflowId stepId message : String) : Diagnostic :=
  ⟨.warning, none, workflowId, some stepId, message, none, none⟩

/-- A criterion that does not compile. -/
def ofError (workflowId stepId condition : String) (e : CompileError) : Diagnostic :=
  ⟨.error, some e.code, workflowId, some stepId, e.message, some condition, e.span?⟩

/-- Is an error. -/
def isError (d : Diagnostic) : Bool := d.severity = .error

/-- The step it is about. -/
def place (d : Diagnostic) : String :=
  match d.stepId with
  | some stepId => d.workflowId ++ "/" ++ stepId
  | none => d.workflowId

/-- The report on one line. -/
def text (d : Diagnostic) : String :=
  let code := match d.code with
    | some c => "[" ++ c ++ "]"
    | none => ""
  d.severity.name ++ code ++ ": " ++ d.place ++ ": " ++ d.message

end Diagnostic

end FlowSuite
