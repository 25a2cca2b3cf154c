import FlowSuite.Condition.Comparing
import FlowSuite.Json.Value
import FlowSuite.RuntimeExpr.Access
import FlowSuite.Script.Syntax

/-!
# What a step can refer to

Inside a generated step `response` is the answer, `data` its decoded body, `payload` the body that was sent, if one
was, and `context` holds what earlier steps wrote. Runtime expressions, conditions and JSON values are turned into
expressions over these names. The scope of the step goes along and keeps a log: which keys of `context` were read, and
which expressions had to be given up and left as `undefined`.
-/

namespace FlowSuite

/-- A runtime expression that was left undefined, and why. -/
structure Unresolved where
  expression : String
  reason : String
deriving DecidableEq, Repr

/-- What a step has in scope, and the log of what was made of it. -/
structure Scope where
  stepId : String
  /-- The step sends a body. -/
  hasPayload : Bool
  /-- The keys of the context that were read, in order. -/
  reads : List String
  /-- The expressions that were left undefined, in order. -/
  unresolved : List Unresolved
deriving DecidableEq, Repr

namespace Scope

/-- The scope of a step before anything was read. -/
def ofStep (stepId : String) (hasPayload : Bool) : Scope := ⟨stepId, hasPayload, [], []⟩

/-- A scope outside of all steps. -/
def detached : Scope := ofStep "" false

/-- Logs a read. -/
def read (s : Scope) (key : String) : Scope := { s with reads := s.reads ++ [key] }

/-- Logs an expression that is left undefined. -/
def giveUp (s : Scope) (expression reason : String) : Scope :=
  { s with unresolved := s.unresolved ++ [⟨expression, reason⟩] }

end Scope

open Script (Expr)

/-- The chain of member accesses along a path. -/
def Script.Expr.along (base : Expr) (path : List String) : Expr := path.foldl Expr.member base

/-- The expression that reads a value; the text is what the log names it by. -/
def Access.lower (expression : String) (access : Access) (s : Scope) : Expr × Scope :=
  match access with
  | .statusCode => (.property (.ident "response") "status", s)
  | .url => (.property (.ident "response") "url", s)
  | .body .response path => ((Expr.ident "data").along path, s)
  | .body .request path =>
    if s.hasPayload then ((Expr.ident "payload").along path, s)
    else (.undefined, s.giveUp expression "the step sends no request body")
  | .responseHeader name =>
    (.call (.property (.property (.ident "response") "headers") "get") [.string name], s)
  | .context stepId element key =>
    let key := stepId ++ "." ++ element ++ "." ++ key
    (.element (.ident "context") (.string key), s.read key)
  | .unresolved _ reason => (.undefined, s.giveUp expression reason)

/-- The expression for a runtime expression. -/
def lowerRuntime (expression : String) (s : Scope) : Expr × Scope := (Access.ofText expression).lower expression s

/-- The expression for a literal of a condition. -/
def Literal.lower : Literal → Expr
  | int n => .int n
  | float x => .value (.float x)
  | string t => .string t
  | bool b => .bool b
  | null => .null

/-- The expression for one side of a comparison. -/
def Operand.lower (operand : Operand) (s : Scope) : Expr × Scope :=
  match operand with
  | literal v => (v.lower, s)
  | runtime e => lowerRuntime e s

/-- The operator of the script language for a comparison. -/
def Comparison.binaryOp : Comparison → Script.BinaryOp
  | eq => .strictEq
  | ne => .strictNe
  | lt => .lt
  | le => .le
  | gt => .gt
  | ge => .ge

/-- The operator of the script language for a connective. -/
def Connective.binaryOp : Connective → Script.BinaryOp
  | and => .and
  | or => .or

/-- The expression with the value of a condition. -/
def Condition.lower : Condition → Scope → Expr × Scope
  | literal _ v, s => (v.lower, s)
  | runtime _ e, s => lowerRuntime e s
  | index _ object position, s =>
    let (o, s) := object.lower s
    let (i, s) := position.lower s
    (.element o i, s)
  | property _ object name, s =>
    let (o, s) := object.lower s
    (o.member name, s)
  | not _ operand, s =>
    let (c, s) := operand.lower s
    (.not c, s)
  | logical _ connective left right, s =>
    let (l, s) := left.lower s
    let (r, s) := right.lower s
    (.binary connective.binaryOp l r, s)
  | comparison _ operator left right _, s =>
    let (l, s) := left.lower s
    let (r, s) := right.lower s
    (.binary operator.binaryOp l r, s)

/-- The value of a whole number: as it is where it fits in 64 bits with a sign, else the nearest binary64 number. -/
def lowerInt (n : Int) : Script.Value :=
  if Decimal.isInt64 n then .int n
  else match Binary64.ofInt? n with
    | some x => .float x
    | none => .int n

mutual

/-- The literal expression for a JSON value. -/
def Json.lower : Json → Expr
  | .null => .null
  | .bool b => .bool b
  | .int n => .value (lowerInt n)
  | .float x => .value (.float x)
  | .str t => .string t
  | .arr items => .array (lowerItems items)
  | .obj members => .object (lowerMembers members)

/-- The literal expressions for the items of an array. -/
def lowerItems : List Json → List Expr
  | [] => []
  | item :: items => item.lower :: lowerItems items

/-- The entries for the members of an object. -/
def lowerMembers : List (String × Json) → List (Script.Key × Expr)
  | [] => []
  | (key, value) :: members => (.ofName key, value.lower) :: lowerMembers members

end

/-- The text of a runtime expression: a string that starts with `$`. -/
def Json.runtimeText? : Json → Option String
  | .str t => if t.toList.head? = some '$' then some t else none
  | _ => none

/-- The expression for a value that can be a runtime expression. -/
def Json.lowerValue (value : Json) (s : Scope) : Expr × Scope :=
  match value.runtimeText? with
  | some e => lowerRuntime e s
  | none => (value.lower, s)

end FlowSuite
