import FlowSuite.Criterion.Compile
import FlowSuite.Document.Api

/-!
# Settings

What the tests of all steps have in common: what is chosen about them (`Options`), and what the description of the API
says.
-/

namespace FlowSuite

/-- What can be chosen about the tests. -/
structure Options where
  /-- The environment variable that holds the key. -/
  apiKeyEnv : String
  /-- Where requests go instead of to the first server of the API. -/
  serverUrl : Option String
  /-- What criteria look at that name no context. -/
  defaultContext : String
deriving DecidableEq, Repr

namespace Options

/-- The environment variable that holds the key where none is chosen. -/
def defaultApiKeyEnv : String := "BUILDABOT_API_KEY_AUTH"

/-- Nothing chosen. -/
def default : Options := ⟨defaultApiKeyEnv, none, FlowSuite.defaultContext⟩

end Options

/-- What the tests of all steps have in common. -/
structure Setting where
  operations : OperationIndex
  security : SecurityHeader
  serverUrl : String
  apiKeyEnv : String
  defaultContext : String

namespace Setting

/-- The setting of an API under options. -/
def ofDocument (api : ApiDocument) (options : Options) : Setting where
  operations := .ofDocument api
  security := api.securityHeader
  serverUrl := options.serverUrl.getD api.serverUrl
  apiKeyEnv := options.apiKeyEnv
  defaultContext := options.defaultContext

end Setting

end FlowSuite
