import FlowSuite.Document.Api
import FlowSuite.Document.Tree
import FlowSuite.Document.Workflow
import FlowSuite.TestCase.Setting

/-!
# Reading documents

The models are read from data in any notation. Fields that a model does not know are passed over.
-/

namespace FlowSuite

open DataTree

variable {τ : Type} [DataTree τ]

def ParameterLocation.read (t : τ) : Option ParameterLocation := (choice? t).bind ParameterLocation.ofName?

def Parameter.read (t : τ) : Option Parameter := do
  let r ← record? ["name", "in", "value"] t
  return { name := ← required r "name" text?
           location := ← optional r "in" ParameterLocation.read
           value := ← withDefault r "value" .null value? }

def RequestBody.read (t : τ) : Option RequestBody := do
  let r ← record? ["contentType", "payload"] t
  return { contentType := ← optional r "contentType" text?
           payload := ← optional r "payload" value? }

/-- A type is read by what its value is: a text is a name, an object has a name and perhaps a version. -/
def CriterionType.read (t : τ) : Option CriterionType := do
  match ← value? t with
  | .str text => return .name text
  | .obj members => return .versioned (← required members "type" text?) (← optional members "version" text?)
  | _ => none

def Criterion.read (t : τ) : Option Criterion := do
  let r ← record? ["condition", "context", "type"] t
  return { condition := ← required r "condition" text?
           context := ← optional r "context" text?
           type := ← optional r "type" CriterionType.read }

def Step.read (t : τ) : Option Step := do
  let r ← record? ["stepId", "description", "operationId", "parameters", "requestBody", "successCriteria", "outputs"] t
  return { stepId := ← required r "stepId" text?
           description := ← optional r "description" text?
           operationId := ← optional r "operationId" text?
           parameters := ← withDefault r "parameters" [] (listOf Parameter.read)
           requestBody := ← optional r "requestBody" RequestBody.read
           successCriteria := ← withDefault r "successCriteria" [] (listOf Criterion.read)
           outputs := ← withDefault r "outputs" [] (membersOf text?) }

def Workflow.read (t : τ) : Option Workflow := do
  let r ← record? ["workflowId", "summary", "description", "inputs", "steps", "outputs"] t
  return { workflowId := ← required r "workflowId" text?
           summary := ← optional r "summary" text?
           description := ← optional r "description" text?
           inputs := ← optional r "inputs" value?
           steps := ← withDefault r "steps" [] (listOf Step.read)
           outputs := ← withDefault r "outputs" [] (membersOf text?) }

def SourceDescription.read (t : τ) : Option SourceDescription := do
  let r ← record? ["name", "url", "type"] t
  return { name := ← required r "name" text?
           url := ← required r "url" text?
           type := ← optional r "type" text? }

def Info.read (t : τ) : Option Info := do
  let r ← record? ["title", "version", "description"] t
  return { title := ← withDefault r "title" "" text?
           version := ← withDefault r "version" "" text?
           description := ← optional r "description" text? }

def WorkflowDocument.read (t : τ) : Option WorkflowDocument := do
  let r ← record? ["arazzo", "info", "sourceDescriptions", "workflows", "components"] t
  return { version := ← withDefault r "arazzo" "" text?
           info := ← withDefault r "info" ⟨"", "", none⟩ Info.read
           sourceDescriptions := ← withDefault r "sourceDescriptions" [] (listOf SourceDescription.read)
           workflows := ← withDefault r "workflows" [] (listOf Workflow.read)
           components := ← optional r "components" value? }

def Operation.read (t : τ) : Option Operation := do
  let r ← record? ["operationId", "summary"] t
  return { operationId := ← optional r "operationId" text?
           summary := ← optional r "summary" text? }

def PathItem.read (t : τ) : Option PathItem := do
  let r ← record? (HttpMethod.all.map HttpMethod.key) t
  let operations ← HttpMethod.all.mapM fun m => (optional r m.key Operation.read).map fun op => (m, op)
  return ⟨fun m => (operations.find? (·.1 = m)).bind (·.2)⟩

def SecurityScheme.read (t : τ) : Option SecurityScheme := do
  let r ← record? ["type", "name", "in", "scheme", "$ref"] t
  return { type := ← optional r "type" text?
           name := ← optional r "name" text?
           location := ← optional r "in" text?
           scheme := ← optional r "scheme" text?
           reference := ← optional r "$ref" text? }

/-- The address of a server. -/
def ApiDocument.readServer (t : τ) : Option String := do
  required (← record? ["url"] t) "url" text?

/-- The security schemes among the components. -/
def ApiDocument.readSchemes (t : τ) : Option (List (String × SecurityScheme)) := do
  withDefault (← record? ["securitySchemes"] t) "securitySchemes" [] (membersOf SecurityScheme.read)

def ApiDocument.read (t : τ) : Option ApiDocument := do
  let r ← record? ["openapi", "servers", "paths", "components"] t
  return { version := ← withDefault r "openapi" "" text?
           servers := ← withDefault r "servers" [] (listOf readServer)
           paths := ← withDefault r "paths" [] (membersOf PathItem.read)
           securitySchemes := ← withDefault r "components" [] readSchemes }

def Options.read (t : τ) : Option Options := do
  let r ← record? ["apiKeyEnv", "serverUrl", "defaultContext"] t
  return { apiKeyEnv := ← withDefault r "apiKeyEnv" Options.default.apiKeyEnv text?
           serverUrl := ← optional r "serverUrl" text?
           defaultContext := ← withDefault r "defaultContext" Options.default.defaultContext text? }

end FlowSuite
