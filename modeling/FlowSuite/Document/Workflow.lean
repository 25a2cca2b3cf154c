import FlowSuite.Json.Value

/-!
# Workflow documents

A workflow document describes workflows as steps that call operations of an API, send parameters and a body, check
the answer and keep parts of it. Only what test generation reads is kept.
-/

namespace FlowSuite

/-- Where a parameter is sent. -/
inductive ParameterLocation where
  | path
  | query
  | header
  | cookie
deriving DecidableEq, Repr

namespace ParameterLocation

def all : List ParameterLocation := [path, query, header, cookie]

def name : ParameterLocation → String
  | path => "path"
  | query => "query"
  | header => "header"
  | cookie => "cookie"

/-- The location with a name. -/
def ofName? (name : String) : Option ParameterLocation := all.find? (·.name = name)

end ParameterLocation

/-- A value that a step sends under a name. -/
structure Parameter where
  name : String
  location : Option ParameterLocation
  value : Json

/-- What a step sends. -/
structure RequestBody where
  contentType : Option String
  payload : Option Json

/-- The type of a criterion: its name, or its name and version. -/
inductive CriterionType where
  | name (name : String)
  | versioned (name : String) (version : Option String)
deriving DecidableEq, Repr

/-- The ways to check a criterion. -/
inductive CriterionKind where
  | simple
  | regex
  | jsonPath
deriving DecidableEq, Repr

namespace CriterionKind

def all : List CriterionKind := [simple, regex, jsonPath]

def name : CriterionKind → String
  | simple => "simple"
  | regex => "regex"
  | jsonPath => "jsonpath"

/-- The kind with a name, in any case. -/
def ofName? (name : String) : Option CriterionKind :=
  all.find? fun k => k.name.toList = name.toList.map Char.toLower

end CriterionKind

/-- A condition that an answer has to meet. -/
structure Criterion where
  condition : String
  /-- The runtime expression that is looked at by conditions which name none. -/
  context : Option String
  type : Option CriterionType
deriving DecidableEq, Repr

namespace Criterion

/-- The name of the type; simple where none is given. -/
def typeName (c : Criterion) : String :=
  match c.type with
  | none => "simple"
  | some (.name n) => n
  | some (.versioned n _) => n

/-- The way to check the criterion, if there is one. -/
def kind? (c : Criterion) : Option CriterionKind := CriterionKind.ofName? c.typeName

end Criterion

/-- One call of an operation. -/
structure Step where
  stepId : String
  description : Option String
  operationId : Option String
  parameters : List Parameter
  requestBody : Option RequestBody
  successCriteria : List Criterion
  /-- The names of what is kept, each with the runtime expression it is read by. -/
  outputs : List (String × String)

namespace Step

/-- How a step is called in tests. -/
def title (s : Step) : String := s.description.getD s.stepId

/-- The body that a step sends. -/
def payload (s : Step) : Option Json := s.requestBody.bind RequestBody.payload

end Step

/-- A sequence of steps. -/
structure Workflow where
  workflowId : String
  summary : Option String
  description : Option String
  inputs : Option Json
  steps : List Step
  outputs : List (String × String)

namespace Workflow

/-- How a workflow is called in tests. -/
def title (w : Workflow) : String := (w.description <|> w.summary).getD w.workflowId

end Workflow

/-- A description of an API that a document refers to. -/
structure SourceDescription where
  name : String
  url : String
  type : Option String
deriving DecidableEq, Repr

/-- What a document says about itself. -/
structure Info where
  title : String
  version : String
  description : Option String
deriving DecidableEq, Repr

/-- A workflow document. -/
structure WorkflowDocument where
  version : String
  info : Info
  sourceDescriptions : List SourceDescription
  workflows : List Workflow
  components : Option Json

end FlowSuite
