import FlowSuite.Condition.Comparing
import FlowSuite.Json.Value
import FlowSuite.RuntimeExpr.Access

/-!
# Expressions and conditions as JSON values

What is shown of a runtime expression (`RuntimeExpr.report`), of a condition and of a flat comparison.
-/

namespace FlowSuite

/-- One named thing with what it holds. -/
def Json.tagged (tag : String) (value : Json) : Json := .obj [(tag, value)]

/-- A list of strings. -/
def Json.strings (texts : List String) : Json := .arr (texts.map .str)

/-- A string that may be missing. -/
def Json.strOrNull (text : Option String) : Json := (text.map Json.str).getD .null

/-! ## Runtime expressions -/

def Pointer.toJson (p : Pointer) : Json := .obj [("tokens", .strings p.keys)]

def MessagePart.toJson : MessagePart → Json
  | header name => .tagged "Header" (.str name)
  | query name => .tagged "Query" (.str name)
  | path name => .tagged "Path" (.str name)
  | body pointer => .tagged "Body" ((pointer.map Pointer.toJson).getD .null)

def Message.tag : Message → String
  | request => "Request"
  | response => "Response"
  | message => "Message"

def Namespace.tag : Namespace → String
  | inputs => "Inputs"
  | outputs => "Outputs"
  | steps => "Steps"
  | workflows => "Workflows"
  | sourceDescriptions => "SourceDescriptions"
  | components => "Components"
  | componentParameters => "ComponentParameters"

def RuntimeExpr.toJson : RuntimeExpr → Json
  | url => .str "Url"
  | method => .str "Method"
  | statusCode => .str "StatusCode"
  | ofMessage m p => .tagged m.tag p.toJson
  | named s n => .tagged s.tag (.str n)

def BodySide.tag : BodySide → String
  | request => "request"
  | response => "response"

def Access.toJson : Access → Json
  | statusCode => .obj [("kind", .str "status-code")]
  | url => .obj [("kind", .str "url")]
  | body side path => .obj [("kind", .str "data"), ("source", .str side.tag), ("path", .strings path)]
  | responseHeader name => .obj [("kind", .str "response-header"), ("name", .str name)]
  | context stepId element key =>
    .obj [("kind", .str "context-lookup"), ("step_id", .str stepId), ("element", .str element), ("key", .str key)]
  | unresolved expression reason =>
    .obj [("kind", .str "unresolved"), ("expression", .str expression), ("reason", .str reason)]

/-- The report on a runtime expression: what it is, its keyword, and where its value is read. -/
def RuntimeExpr.report (text : String) (e : RuntimeExpr) : Json :=
  .obj [("expression", e.toJson), ("root", .str e.root), ("descriptor", (Access.ofExpr text e).toJson)]

/-! ## Conditions -/

def Span.toJson (s : Span) : Json := .obj [("start", .int s.start), ("end", .int s.stop)]

def Literal.toJson : Literal → Json
  | int n => .tagged "Int" (.int n)
  | float x => .tagged "Float" (.float x)
  | string s => .tagged "String" (.str s)
  | bool b => .tagged "Bool" (.bool b)
  | null => .str "Null"

def Connective.tag : Connective → String
  | and => "And"
  | or => "Or"

/-- A kind of condition with the part of the text it was read from. -/
def Condition.node (span : Span) (kind : String) (content : Json) : Json :=
  .obj [("kind", .tagged kind content), ("span", span.toJson)]

def Condition.toJson : Condition → Json
  | literal s v => node s "Literal" v.toJson
  | runtime s e => node s "Runtime" (.str e)
  | index s o i => node s "Index" (.obj [("object", o.toJson), ("index", i.toJson)])
  | property s o n => node s "Property" (.obj [("object", o.toJson), ("property", .str n)])
  | not s c => node s "Not" c.toJson
  | logical s k l r => node s "Logical" (.obj [("op", .str k.tag), ("left", l.toJson), ("right", r.toJson)])
  | comparison s op l r m =>
    node s "Assertion" (.obj [("kind", .str op.assertionKind.name), ("operator", .str op.symbol),
      ("left", l.toJson), ("right", r.toJson), ("message", .str m)])

def Operand.toJson : Operand → Json
  | literal v => .tagged "Literal" v.toJson
  | runtime e => .tagged "Runtime" (.str e)

def FlatComparison.toJson (c : FlatComparison) : Json :=
  .obj [("left", c.left.toJson), ("operator", .str c.operator.symbol), ("right", c.right.toJson)]

end FlowSuite
