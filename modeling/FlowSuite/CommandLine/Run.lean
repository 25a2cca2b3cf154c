import FlowSuite.CommandLine.Arguments
import FlowSuite.CommandLine.Report
import FlowSuite.Condition.Parser
import FlowSuite.Document.Source
import FlowSuite.Json.Conversion
import FlowSuite.Json.Printer
import FlowSuite.TestCase.Suite

/-!
# Running commands

A command prints text, reports on its input and ends with a status: 0 where all went well, 1 where something is wrong
with the input or with a file, 2 where the arguments name no command. Generation writes its program only if the suite
has an assertion; how the text of a document is read is given to it (`parse?`).
-/

namespace FlowSuite

/-- What is chosen by the environment. -/
structure Environment where
  apiKeyEnv : Option String
  serverUrl : Option String
deriving DecidableEq, Repr

/-- What becomes of a command. -/
structure Outcome where
  status : Nat
  output : String
  report : List Notice
deriving DecidableEq, Repr

namespace Outcome

/-- Ends well with a line of output. -/
def printed (line : String) : Outcome := ⟨0, line ++ "\n", []⟩

/-- Ends with a report. -/
def failed (n : Notice) : Outcome := ⟨1, "", [n]⟩

/-- Ends well with a value, on one line or indented. -/
def json (isPretty : Bool) (value : Json) : Outcome :=
  printed (String.ofList (if isPretty then value.indented 0 else value.compact))

/-- Ends with an error that points into a condition. -/
def badCondition (text : String) (e : ConditionError) : Outcome :=
  failed (.pointer .error (some e.code) e.message "condition" text e.span)

/-- How to name a command. -/
def usage : String :=
  "generate <INPUT> <OUTPUT> [--api-key-env <NAME>] [--server-url <URL>]\n" ++
    "expr <EXPRESSION> [--pretty]\n" ++
    "condition <TEXT> [--type simple|regex|jsonpath] [--pretty]\n"

/-- Ends without a command. -/
def ofStop : UsageStop → Outcome
  | .help => ⟨0, usage, []⟩
  | .misuse => ⟨2, "", [.line usage]⟩

end Outcome

/-- Shows what a runtime expression is. -/
def showExpr (text : String) (isPretty : Bool) : Outcome :=
  match RuntimeExpr.parse text.toList with
  | .ok e => .json isPretty (e.report text)
  | .error e => .failed (.pointer .error (some SyntaxError.code) e.message "expression" text e.span)

/-- Shows what a condition of some kind of criterion is. -/
def showCondition (text : String) (isPretty : Bool) : CriterionKind → Outcome
  | .simple =>
    match Condition.parse text with
    | .ok c => .json isPretty c.toJson
    | .error e => .badCondition text e
  | .jsonPath =>
    if (FlatComparison.find? text.toList).isNone then
      .json isPretty (.obj [("path", .str text), ("expected", .bool true)])
    else
      match FlatComparison.parse text with
      | .ok c => .json isPretty c.toJson
      | .error e => .badCondition text e
  | .regex =>
    match Regex.ofText text with
    | .ok r => .json isPretty (.obj [("pattern", .str r.pattern), ("flags", .str r.flags)])
    | .error e => .failed (.ofError e.code e.message)

/-- The options of generation: what is asked for, or else what the environment chooses. -/
def Options.choose (env : Environment) (apiKeyEnv serverUrl : Option String) : Options :=
  { Options.default with
    apiKeyEnv := (apiKeyEnv.or env.apiKeyEnv).getD Options.defaultApiKeyEnv
    serverUrl := serverUrl.or env.serverUrl }

namespace Suite

/-- The reports on a suite. -/
def notices (s : Suite) : List Notice := s.diagnostics.map Notice.ofDiagnostic

/-- The line for a suite that is written to a file. -/
def summary (s : Suite) (output : String) : String :=
  let errors := s.diagnostics.countP Diagnostic.isError
  "Generated " ++ output ++ " (" ++ toString s.tests.length ++ " workflows, " ++
    toString (s.diagnostics.length - errors) ++ " warnings, " ++ toString errors ++ " errors)\n"

/-- The outcome where the program of a suite is in its file. -/
def written (s : Suite) (output : String) : Outcome :=
  ⟨if s.hasErrors then 1 else 0, s.summary output, s.notices⟩

/-- The outcome where a suite has no program. -/
def nothingWritten (s : Suite) (input : String) : Outcome :=
  ⟨0, "No assertions were produced from " ++ input ++ "; nothing written\n", s.notices⟩

end Suite

section

variable {τ : Type} [DataTree τ] {m : Type → Type} [Monad m]

/-- Writes a text to a file, in a folder that is made where it is missing. -/
def Storage.save (storage : Storage m) (path text : String) : m (Except String Unit) := do
  let folder := (Pathname.parent? path).getD ""
  match ← if folder.isEmpty then pure (.ok ()) else storage.makeFolders folder with
  | .error e => return .error ("Error creating " ++ folder ++ ": " ++ e.message)
  | .ok () =>
    match ← storage.write path text with
    | .error e => return .error ("Error writing " ++ path ++ ": " ++ e.message)
    | .ok () => return .ok ()

/-- Generates the tests of documents into a file. -/
def Sources.generate (sources : Sources) (storage : Storage m) (input output : String) (options : Options) :
    m Outcome := do
  let suite := Suite.generate sources.document sources.api options
  match suite.text? with
  | none => return suite.nothingWritten input
  | some text =>
    match ← storage.save output text with
    | .error message => return ⟨1, "", suite.notices ++ [.line message]⟩
    | .ok () => return suite.written output

/-- Generates the tests of the workflow document in one file into another. -/
def generate (parse? : String → Option τ) (storage : Storage m) (input output : String) (options : Options) :
    m Outcome := do
  match ← Sources.load parse? storage input with
  | .error e => return .failed (.ofError e.code e.message)
  | .ok sources => sources.generate storage input output options

/-- Runs a command. -/
def Command.run (parse? : String → Option τ) (storage : Storage m) (env : Environment) : Command → m Outcome
  | generate input output apiKeyEnv serverUrl =>
    FlowSuite.generate parse? storage input output (.choose env apiKeyEnv serverUrl)
  | expr text isPretty => return showExpr text isPretty
  | condition text kind isPretty => return showCondition text isPretty kind

/-- Runs the command that arguments name. -/
def runArguments (parse? : String → Option τ) (storage : Storage m) (env : Environment) (args : List String) :
    m Outcome :=
  match Command.ofArguments args with
  | .ok c => c.run parse? storage env
  | .error stop => return .ofStop stop

end

end FlowSuite
