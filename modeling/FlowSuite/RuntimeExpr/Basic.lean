import FlowSuite.RuntimeExpr.Pointer

/-!
# Runtime expressions

A runtime expression names a value that exists only while a workflow runs: a part of a message, an input, an output of
a step. `RuntimeExpr.root` is the canonical spelling of its first keyword.
-/

namespace FlowSuite

/-- The messages an expression can read from. -/
inductive Message where
  | request
  | response
  | message
deriving DecidableEq, Repr

/-- The part of a message that is read; a body with a pointer is a part of the body. -/
inductive MessagePart where
  | header (name : String)
  | query (name : String)
  | path (name : String)
  | body (pointer : Option Pointer)
deriving DecidableEq, Repr

/-- The collections whose members are read by name. -/
inductive Namespace where
  | inputs
  | outputs
  | steps
  | workflows
  | sourceDescriptions
  | components
  | componentParameters
deriving DecidableEq, Repr

/-- A runtime expression. -/
inductive RuntimeExpr where
  | url
  | method
  | statusCode
  | ofMessage (source : Message) (part : MessagePart)
  | named (space : Namespace) (name : String)
deriving DecidableEq, Repr

/-- The keyword of a message, with its point. -/
def Message.keyword : Message → String
  | request => "$request."
  | response => "$response."
  | message => "$message."

/-- The keyword of a collection, with its point. -/
def Namespace.keyword : Namespace → String
  | inputs => "$inputs."
  | outputs => "$outputs."
  | steps => "$steps."
  | workflows => "$workflows."
  | sourceDescriptions => "$sourceDescriptions."
  | components => "$components."
  | componentParameters => "$components.parameters."

/-- The keyword of a part of a message. -/
def MessagePart.keyword : MessagePart → String
  | header _ => "header"
  | query _ => "query"
  | path _ => "path"
  | body _ => "body"

/-- The canonical spelling of the keyword an expression starts with. -/
def RuntimeExpr.root : RuntimeExpr → String
  | url => "$url"
  | method => "$method"
  | statusCode => "$statusCode"
  | ofMessage m _ => m.keyword
  | named s _ => s.keyword

end FlowSuite
